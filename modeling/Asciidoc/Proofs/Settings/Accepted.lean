import Asciidoc.Settings.OfTable
import Mathlib.Data.Option.Basic

/-!
# What configurations are accepted, and what comes of them

A configuration is accepted exactly if every entry is for a setting of its group, every switch in it
is a truth value, the settings of the reader are a table or null, and, of the last entries for them,
the header detection names one and the comment marker counts as true. What comes of it is said
setting by setting: the value of the last entry for it, or else the value it has anyway
(`ofTable_eq_ok_iff`).

So the settings are what they should be but for one thing: the comment marker may be a number, a
truth value, a list or a table. And a refusal is put into words unless what a switch is set to
cannot be quoted (`ofTable_wellTyped_iff`).

Collecting goes through the entries in order and keeps what has been said last; that is what
`collect_of_takes` says of a run, and `collect_of_refused` of the entry that ends it.
-/

namespace Asciidoc

/-! ## Groups -/

namespace Setting

/-- The value of the last of the entries whose keys spell a name. -/
def last? (name : Text) (entries : List (Text × Json)) : Option Json :=
  (entries.filter fun e => spelling e.1 = name).getLast?.map (·.2)

theorem last?_cons (name : Text) (e : Text × Json) (entries : List (Text × Json)) :
    last? name (e :: entries)
      = (last? name entries).or (if spelling e.1 = name then some e.2 else none) := by
  simp only [last?, List.filter_cons, decide_eq_true_eq]
  split
  · rw [List.getLast?_cons]
    cases (entries.filter fun e => spelling e.1 = name).getLast? <;> rfl
  · rw [Option.or_none]

theorem exists_of_last?_eq_some {name : Text} {entries : List (Text × Json)} {v : Json}
    (h : last? name entries = some v) : ∃ e ∈ entries, spelling e.1 = name ∧ e.2 = v := by
  obtain ⟨e, he, rfl⟩ := Option.map_eq_some_iff.mp h
  obtain ⟨hmem, hname⟩ := List.mem_filter.mp (List.mem_of_getLast? he)
  exact ⟨e, hmem, of_decide_eq_true hname, rfl⟩

namespace Group

variable {g : Group} {known entries : List (Text × Json)} {e : Text × Json} {f : SettingsFault}

/-- The entries for the settings of a group: those of the conversion themselves, and those of the
last table for the reader among them. -/
def part (g : Group) (entries : List (Text × Json)) : List (Text × Json) :=
  match g with
  | .converter => entries
  | .reader => ((last? "reader".toList entries).bind Json.entries?).getD []

/-- The entry is for a setting of the group, and if that is a switch, it is a truth value. -/
def Takes (g : Group) (e : Text × Json) : Prop :=
  ∃ s, g.find? (spelling e.1) = some s ∧ (s.isSwitch = true → ∃ b, e.2 = .bool b)

/-- Why a group does not take an entry. -/
def refusal? (g : Group) (e : Text × Json) : Option SettingsFault :=
  match g.find? (spelling e.1) with
  | none => some (.unknown g e.1)
  | some s => if s.isSwitch && e.2.bool?.isNone then some (.notSwitch e.1 e.2) else none

theorem collect_cons (g : Group) (known entries : List (Text × Json)) (e : Text × Json) :
    g.collect known (e :: entries) = match g.refusal? e with
      | some f => .error f
      | none => g.collect (Entries.put (spelling e.1) e.2 known) entries := by
  obtain ⟨key, given⟩ := e
  rw [collect, refusal?]
  cases g.find? (spelling key) with
  | none => rfl
  | some s => by_cases h : (s.isSwitch && given.bool?.isNone) = true <;> simp [h]

theorem refusal?_eq_none_iff : g.refusal? e = none ↔ g.Takes e := by
  rw [refusal?, Takes]
  cases g.find? (spelling e.1) with
  | none => simp
  | some s => cases s.isSwitch <;> cases e.2 <;> simp [Json.bool?]

/-- What a run of entries that a group takes leaves is the value of the last entry for each
setting. -/
theorem collect_of_takes (h : ∀ e ∈ entries, g.Takes e) :
    ∃ values, g.collect known entries = .ok values ∧
      ∀ name, Entries.find? name values = (last? name entries).or (Entries.find? name known) := by
  induction entries generalizing known with
  | nil => exact ⟨known, rfl, fun name => rfl⟩
  | cons e entries ih =>
    obtain ⟨he, hentries⟩ := List.forall_mem_cons.mp h
    obtain ⟨values, hvalues, hfind⟩ := @ih (Entries.put (spelling e.1) e.2 known) hentries
    refine ⟨values, ?_, fun name => ?_⟩
    · rw [collect_cons, refusal?_eq_none_iff.mpr he]
      exact hvalues
    · rw [hfind, last?_cons, Option.or_assoc]
      congr 1
      by_cases hname : spelling e.1 = name
      · rw [if_pos hname, ← hname, Entries.find?_put_self, Option.some_or]
      · rw [if_neg hname, Entries.find?_put_of_ne _ _ (Ne.symm hname), Option.none_or]

/-- What ends a run is the refusal of the first entry that a group does not take. -/
theorem collect_of_refused (h : entries.findSome? g.refusal? = some f) :
    g.collect known entries = .error f := by
  induction entries generalizing known with
  | nil => cases h
  | cons e entries ih =>
    rw [List.findSome?_cons] at h
    rw [collect_cons]
    cases he : g.refusal? e with
    | some f' =>
      rw [he] at h
      exact congrArg Except.error (Option.some.inj h)
    | none =>
      rw [he] at h
      exact ih h

/-- An entry that is not taken and whose refusal cannot be put into words comes first among those
that are not taken. -/
def Stumbles (g : Group) (entries : List (Text × Json)) : Prop :=
  ∃ before e others, entries = before ++ e :: others ∧ (∀ e ∈ before, g.Takes e) ∧
    (∃ s, g.find? (spelling e.1) = some s ∧ s.isSwitch = true) ∧ e.2.isQuotable = false

theorem refusal?_isTold (he : g.refusal? e = some f) :
    f.isTold = false ↔
      (∃ s, g.find? (spelling e.1) = some s ∧ s.isSwitch = true) ∧ e.2.isQuotable = false := by
  rw [refusal?] at he
  cases hs : g.find? (spelling e.1) with
  | none =>
    rw [hs] at he
    obtain rfl := Option.some.inj he
    simp [SettingsFault.isTold]
  | some s =>
    rw [hs] at he
    obtain ⟨hswitch, hf⟩ := Option.ite_none_right_eq_some.mp he
    obtain rfl := Option.some.inj hf
    rw [Bool.and_eq_true] at hswitch
    simp [SettingsFault.isTold, hswitch.1]

theorem stumbles_iff :
    g.Stumbles entries ↔ ∃ f, entries.findSome? g.refusal? = some f ∧ f.isTold = false := by
  constructor
  · rintro ⟨before, e, others, rfl, hbefore, ⟨s, hs, hswitch⟩, hquotable⟩
    have hbool : e.2.bool? = none := by
      cases he : e.2 <;> simp_all [Json.isQuotable, Json.bool?]
    have he : g.refusal? e = some (.notSwitch e.1 e.2) := by
      simp [refusal?, hs, hswitch, hbool]
    refine ⟨_, List.findSome?_eq_some_iff.mpr ⟨before, e, others, rfl, he, ?_⟩, hquotable⟩
    exact fun x hx => refusal?_eq_none_iff.mpr (hbefore x hx)
  · rintro ⟨f, hf, htold⟩
    obtain ⟨before, e, others, rfl, he, hbefore⟩ := List.findSome?_eq_some_iff.mp hf
    obtain ⟨hswitch, hquotable⟩ := (refusal?_isTold he).mp htold
    exact ⟨before, e, others, rfl, fun x hx => refusal?_eq_none_iff.mp (hbefore x hx), hswitch,
      hquotable⟩

theorem not_stumbles_of_takes (h : ∀ e ∈ entries, g.Takes e) : ¬g.Stumbles entries := by
  have hnone : entries.findSome? g.refusal? = none :=
    List.findSome?_eq_none_iff.mpr fun e he => refusal?_eq_none_iff.mpr (h e he)
  simp [stumbles_iff, hnone]

/-- What collecting entries comes to. -/
theorem collect_cases (g : Group) (entries : List (Text × Json)) :
    (∃ values, g.collect [] entries = .ok values ∧ (∀ e ∈ entries, g.Takes e) ∧
      ∀ name, Entries.find? name values = last? name entries) ∨
    ∃ f, g.collect [] entries = .error f ∧ (¬∀ e ∈ entries, g.Takes e) ∧
      (f.isTold = false ↔ g.Stumbles entries) := by
  simp only [← refusal?_eq_none_iff, stumbles_iff]
  cases h : entries.findSome? g.refusal? with
  | none =>
    have hall := List.findSome?_eq_none_iff.mp h
    obtain ⟨values, hvalues, hfind⟩ :=
      collect_of_takes fun e he => refusal?_eq_none_iff.mp (hall e he)
    exact .inl ⟨values, hvalues, hall, fun name => by rw [hfind, Entries.find?, Option.or_none]⟩
  | some f =>
    refine .inr ⟨f, collect_of_refused h, fun hall => ?_, by simp⟩
    exact Option.some_ne_none f (h.symm.trans (List.findSome?_eq_none_iff.mpr hall))

end Group

end Setting

/-! ## All settings -/

namespace Settings

open Setting (Group last?)

/-- A setting that holds a value of its own. -/
inductive Field where
  | skipComments
  | commentMarker
  | includeTableHeader
  | parseAdmonitions
  | admonitionParagraphs
  | tableHeaderDetection
deriving DecidableEq, Repr

namespace Field

/-- The group of a setting. -/
def group : Field → Group
  | .skipComments | .commentMarker | .includeTableHeader => .converter
  | .parseAdmonitions | .admonitionParagraphs | .tableHeaderDetection => .reader

/-- The name of a setting. -/
def name : Field → Text
  | .skipComments => "skip_comments".toList
  | .commentMarker => "comment_marker".toList
  | .includeTableHeader => "include_table_header".toList
  | .parseAdmonitions => "parse_admonitions".toList
  | .admonitionParagraphs => "admonition_paragraphs".toList
  | .tableHeaderDetection => "table_header_detection".toList

/-- The value of a setting. -/
def value (s : Settings) : Field → Json
  | .skipComments => s.skipComments
  | .commentMarker => s.commentMarker
  | .includeTableHeader => s.includeTableHeader
  | .parseAdmonitions => s.reader.parseAdmonitions
  | .admonitionParagraphs => s.reader.admonitionParagraphs
  | .tableHeaderDetection => .ofString s.reader.tableHeaderDetection.name

/-- The values that a setting is meant to have. -/
def Admits : Field → Json → Prop
  | .commentMarker, v => ∃ t : Text, t ≠ [] ∧ v = .string t
  | .tableHeaderDetection, v => ∃ mode : HeaderDetection, v = .ofString mode.name
  | _, v => ∃ b, v = .bool b

end Field

/-- All settings have values that they are meant to have. -/
def WellTyped (s : Settings) : Prop := ∀ f : Field, f.Admits (f.value s)

/-- What entries say about a setting. -/
def Field.given? (f : Field) (entries : List (Text × Json)) : Option Json :=
  last? f.name (f.group.part entries)

/-- What a configuration has to be so that it is accepted. -/
structure Accepts (entries : List (Text × Json)) : Prop where
  /-- Every entry is for a setting of its group, and switches are truth values. -/
  taken : ∀ g : Group, ∀ e ∈ g.part entries, g.Takes e
  /-- The last entry for the settings of the reader is a table of them or null. -/
  reader : ∀ v, last? "reader".toList entries = some v →
    v = .null ∨ ∃ settings, v = .table settings
  /-- The last entry for the header detection names one. -/
  detection : ∀ v, Field.tableHeaderDetection.given? entries = some v →
    ∃ mode : HeaderDetection, v = .ofString mode.name
  /-- The last entry for the comment marker counts as true. -/
  marker : ∀ v, Field.commentMarker.given? entries = some v → v.truthy = true

/-- A refusal that cannot be put into words is the first one. -/
def Stumbles (entries : List (Text × Json)) : Prop :=
  Group.converter.Stumbles entries ∨
    (∀ e ∈ entries, Group.converter.Takes e) ∧
      Group.reader.Stumbles (Group.reader.part entries)

theorem text_bind_ofName?_eq_some_iff (v : Json) (mode : HeaderDetection) :
    v.text?.bind HeaderDetection.ofName? = some mode ↔ v = .ofString mode.name := by
  constructor
  · intro h
    obtain ⟨t, ht, hmode⟩ := Option.bind_eq_some_iff.mp h
    have hname := List.find?_some hmode
    cases v <;> cases ht
    exact congrArg Json.string (beq_iff_eq.mp hname).symm
  · rintro rfl
    cases mode <;> decide

/-- What changing settings of the reader comes to. -/
theorem readerPut_cases (s : Settings) (values : List (Text × Json)) :
    (∃ r, s.reader.put values = .ok r ∧
      (∀ v, Entries.find? Field.tableHeaderDetection.name values = some v →
        Field.tableHeaderDetection.Admits v) ∧
      ∀ f : Field, f.group = .reader → f.value { s with reader := r }
        = (Entries.find? f.name values).getD (f.value s)) ∨
    ∃ c, s.reader.put values = .error c ∧
      ∃ v, Entries.find? Field.tableHeaderDetection.name values = some v ∧
        ¬Field.tableHeaderDetection.Admits v := by
  have hname : Field.tableHeaderDetection.name = "table_header_detection".toList := rfl
  rw [ReaderSettings.put, hname]
  obtain hfind | ⟨v, hfind⟩ :=
    Option.eq_none_or_eq_some (Entries.find? "table_header_detection".toList values)
  · rw [hfind]
    refine .inl ⟨_, rfl, fun v hv => absurd hv.symm (Option.some_ne_none v), fun f hf => ?_⟩
    cases f with
    | parseAdmonitions | admonitionParagraphs => rfl
    | tableHeaderDetection => rw [hname, hfind]; rfl
    | _ => cases hf
  · rw [hfind]
    cases hmode : v.text?.bind HeaderDetection.ofName? with
    | none =>
      simp only [hmode]
      refine .inr ⟨_, rfl, v, rfl, fun hadmits => ?_⟩
      obtain ⟨mode, hv⟩ := hadmits
      exact Option.some_ne_none mode
        (((text_bind_ofName?_eq_some_iff v mode).mpr hv).symm.trans hmode)
    | some mode =>
      have hv := (text_bind_ofName?_eq_some_iff v mode).mp hmode
      simp only [hmode]
      refine .inl ⟨_, rfl, fun _ h => Option.some.inj h ▸ ⟨mode, hv⟩, fun f hf => ?_⟩
      cases f with
      | parseAdmonitions | admonitionParagraphs => rfl
      | tableHeaderDetection => rw [hname, hfind, hv]; rfl
      | _ => cases hf

/-- What changing settings of the conversion comes to. -/
theorem put_cases (s : Settings) {values : List (Text × Json)}
    (hreader : Entries.find? "reader".toList values = none) :
    let marker := (Entries.find? Field.commentMarker.name values).getD s.commentMarker
    (∃ s', s.put values = .ok s' ∧ marker.truthy = true ∧ s'.reader = s.reader ∧
      ∀ f : Field, f.group = .converter →
        f.value s' = (Entries.find? f.name values).getD (f.value s)) ∨
    ∃ c, s.put values = .error c ∧ marker.truthy = false := by
  intro marker
  have hput : s.put values = if !marker.truthy then .error .emptyMarker else .ok { s with
      skipComments := (Entries.find? Field.skipComments.name values).getD s.skipComments
      commentMarker := marker
      includeTableHeader :=
        (Entries.find? Field.includeTableHeader.name values).getD s.includeTableHeader } := by
    rw [Settings.put, hreader]
    rfl
  rw [hput]
  cases marker.truthy with
  | false => exact .inr ⟨.emptyMarker, rfl, rfl⟩
  | true =>
    refine .inl ⟨_, rfl, rfl, rfl, fun f hf => ?_⟩
    cases f with
    | skipComments | commentMarker | includeTableHeader => rfl
    | _ => cases hf

/-- What the value for the settings of the reader comes to. -/
theorem readerTable_cases (entries : List (Text × Json)) :
    let given := last? "reader".toList entries
    (readerTable given = .ok (Group.reader.part entries) ∧
      ∀ v, given = some v → v = .null ∨ ∃ settings, v = .table settings) ∨
    ∃ v, given = some v ∧ readerTable given = .error (.readerNotTable v) ∧
      Group.reader.part entries = [] ∧ ¬(v = .null ∨ ∃ settings, v = .table settings) := by
  intro given
  rw [show Group.reader.part entries = (given.bind Json.entries?).getD [] from rfl]
  obtain h | ⟨v, h⟩ := Option.eq_none_or_eq_some given
  · exact .inl (by simp [h, readerTable])
  · cases v <;> simp [h, readerTable, Json.entries?]

/-- What putting the values of both groups in place comes to. -/
theorem putAll_cases {entries values readerValues : List (Text × Json)}
    (hfind : ∀ f : Field, f.group = .converter → Entries.find? f.name values = f.given? entries)
    (hnone : Entries.find? "reader".toList values = none)
    (hreaderFind : ∀ f : Field, f.group = .reader →
      Entries.find? f.name readerValues = f.given? entries) :
    let run : Except SettingsFault Settings := do
      let reader ← (({} : ReaderSettings).put readerValues).mapError .value
      let settings ← (({} : Settings).put values).mapError .value
      return { settings with reader := reader }
    (∃ s, run = .ok s ∧
      (∀ v, Field.tableHeaderDetection.given? entries = some v →
        Field.tableHeaderDetection.Admits v) ∧
      (∀ v, Field.commentMarker.given? entries = some v → v.truthy = true) ∧
      ∀ f : Field, f.value s = (f.given? entries).getD (f.value {})) ∨
    ∃ c, run = .error (.value c) ∧
      ((∃ v, Field.tableHeaderDetection.given? entries = some v ∧
        ¬Field.tableHeaderDetection.Admits v) ∨
      ∃ v, Field.commentMarker.given? entries = some v ∧ v.truthy = false) := by
  intro run
  simp only [run, bind, Except.bind, pure, Except.pure]
  have hmode := hreaderFind .tableHeaderDetection rfl
  have hmarker := hfind .commentMarker rfl
  rcases readerPut_cases {} readerValues with ⟨r, hr, hmodes, hreader⟩ | ⟨c, hc, hbad⟩
  · rw [hmode] at hmodes
    rcases put_cases {} hnone with ⟨s, hs, htrue, -, hconverter⟩ | ⟨c, hc, hfalse⟩
    · rw [hmarker] at htrue
      simp only [hr, hs, Except.mapError]
      refine .inl ⟨_, rfl, hmodes, fun v hv => by rwa [hv] at htrue, fun f => ?_⟩
      cases hf : f.group with
      | converter =>
        rw [← hfind f hf, ← hconverter f hf]
        cases f <;> first | rfl | cases hf
      | reader =>
        rw [← hreaderFind f hf, ← hreader f hf]
        cases f <;> first | rfl | cases hf
    · rw [hmarker] at hfalse
      simp only [hr, hc, Except.mapError]
      refine .inr ⟨c, rfl, .inr ?_⟩
      cases hgiven : Field.commentMarker.given? entries with
      | none => rw [hgiven] at hfalse; exact absurd hfalse (by decide)
      | some v => rw [hgiven] at hfalse; exact ⟨v, rfl, hfalse⟩
  · rw [hmode] at hbad
    simp only [hc, Except.mapError]
    exact .inr ⟨c, rfl, .inl hbad⟩

/-- What the settings of a configuration come to. -/
theorem ofTable_cases (entries : List (Text × Json)) :
    (∃ s, ofTable entries = .ok s ∧ Accepts entries ∧
      ∀ f : Field, f.value s = (f.given? entries).getD (f.value {})) ∨
    ∃ f, ofTable entries = .error f ∧ ¬Accepts entries ∧
      (f.isTold = false ↔ Stumbles entries) := by
  rw [ofTable]
  simp only [bind, Except.bind]
  rcases Group.converter.collect_cases entries with
    ⟨values, hvalues, htakes, hfind⟩ | ⟨f, hf, hnot, htold⟩
  · simp only [hvalues, hfind]
    -- the entries of the conversion are fine, so what is stumbled over is the reader's
    have hstumbles : Stumbles entries ↔ Group.reader.Stumbles (Group.reader.part entries) :=
      ⟨fun h => (h.resolve_left (Group.not_stumbles_of_takes htakes)).2,
        fun h => .inr ⟨htakes, h⟩⟩
    rw [hstumbles]
    rcases readerTable_cases entries with ⟨htable, hreader⟩ | ⟨v, hv, htable, hnil, hnot⟩
    · simp only [htable]
      rcases Group.reader.collect_cases (Group.reader.part entries) with
        ⟨readerValues, hreaderValues, hreaderTakes, hreaderFind⟩ | ⟨f, hf, hnot, htold⟩
      · simp only [hreaderValues]
        have hrest (f : Field) (hf : f.group = .converter) :
            Entries.find? f.name (Entries.erase "reader".toList values) = f.given? entries := by
          have hne : f.name ≠ "reader".toList := by cases f <;> decide
          rw [Entries.find?_erase_of_ne _ hne, hfind, Field.given?, hf]
          rfl
        have hreaderRest (f : Field) (hf : f.group = .reader) :
            Entries.find? f.name readerValues = f.given? entries := by
          rw [hreaderFind, Field.given?, hf]
        rcases putAll_cases hrest (Entries.find?_erase_self _ values) hreaderRest with
          ⟨s, hs, hmode, hmarker, hvalue⟩ | ⟨c, hc, hbad⟩
        · have htaken (g : Group) : ∀ e ∈ g.part entries, g.Takes e := by
            cases g with
            | converter => exact htakes
            | reader => exact hreaderTakes
          exact .inl ⟨s, hs, ⟨htaken, hreader, hmode, hmarker⟩, hvalue⟩
        · refine .inr ⟨_, hc, fun h => ?_, fun h => absurd h.symm Bool.false_ne_true,
            fun h => absurd h (Group.not_stumbles_of_takes hreaderTakes)⟩
          rcases hbad with ⟨v, hv, hnot⟩ | ⟨v, hv, hfalse⟩
          · exact hnot (h.detection v hv)
          · exact Bool.false_ne_true (hfalse.symm.trans (h.marker v hv))
      · simp only [hf]
        exact .inr ⟨f, rfl, fun h => hnot (h.taken .reader), htold⟩
    · simp only [htable]
      refine .inr ⟨_, rfl, fun h => hnot (h.reader v hv), ?_⟩
      rw [hnil]
      exact ⟨fun h => absurd h.symm Bool.false_ne_true,
        fun h => absurd h (Group.not_stumbles_of_takes (List.forall_mem_nil _))⟩
  · simp only [hf]
    refine .inr ⟨f, rfl, fun h => hnot (h.taken .converter), htold.trans ?_⟩
    exact ⟨.inl, fun h => h.resolve_right fun h => hnot h.1⟩

theorem eq_of_forall_value_eq {s s' : Settings} (h : ∀ f : Field, f.value s = f.value s') :
    s = s' := by
  have hmode : s.reader.tableHeaderDetection = s'.reader.tableHeaderDetection := by
    have hname := h .tableHeaderDetection
    simp only [Field.value] at hname
    revert hname
    cases s.reader.tableHeaderDetection <;> cases s'.reader.tableHeaderDetection <;>
      simp [Json.ofString, HeaderDetection.name]
  obtain ⟨skip, marker, header, ⟨styles, paragraphs, mode⟩⟩ := s
  obtain ⟨skip', marker', header', ⟨styles', paragraphs', mode'⟩⟩ := s'
  obtain rfl : skip = skip' := h .skipComments
  obtain rfl : marker = marker' := h .commentMarker
  obtain rfl : header = header' := h .includeTableHeader
  obtain rfl : styles = styles' := h .parseAdmonitions
  obtain rfl : paragraphs = paragraphs' := h .admonitionParagraphs
  obtain rfl : mode = mode' := hmode
  rfl

/-- What is accepted, and with which values. -/
theorem ofTable_eq_ok_iff {entries : List (Text × Json)} {s : Settings} :
    ofTable entries = .ok s ↔
      Accepts entries ∧ ∀ f : Field, f.value s = (f.given? entries).getD (f.value {}) := by
  rcases ofTable_cases entries with ⟨s', hs', haccepts, hvalue⟩ | ⟨f, hf, hnot, -⟩
  · rw [hs']
    constructor
    · rintro ⟨⟩
      exact ⟨haccepts, hvalue⟩
    · rintro ⟨-, h⟩
      exact congrArg Except.ok (eq_of_forall_value_eq fun f => (hvalue f).trans (h f).symm)
  · rw [hf]
    exact ⟨nofun, fun h => absurd h.1 hnot⟩

theorem ofTable_of_accepts {entries : List (Text × Json)} (h : Accepts entries) :
    ∃ s, ofTable entries = .ok s ∧
      ∀ f : Field, f.value s = (f.given? entries).getD (f.value {}) := by
  rcases ofTable_cases entries with ⟨s, hs, -, hvalue⟩ | ⟨f, -, hnot, -⟩
  · exact ⟨s, hs, hvalue⟩
  · exact absurd h hnot

/-- What a configuration that is accepted says about a setting other than the comment marker is
what the setting is meant to have. -/
theorem Accepts.admits {entries : List (Text × Json)} (h : Accepts entries) {f : Field}
    (hf : f ≠ .commentMarker) {v : Json} (hv : f.given? entries = some v) : f.Admits v := by
  obtain ⟨e, he, hname, rfl⟩ := Setting.exists_of_last?_eq_some hv
  obtain ⟨s, hs, hswitch⟩ := h.taken f.group e he
  rw [hname] at hs
  cases f with
  | commentMarker => exact absurd rfl hf
  | tableHeaderDetection => exact h.detection _ hv
  | _ =>
    obtain rfl := Option.some.inj hs
    exact hswitch rfl

theorem wellTyped_default : WellTyped {} := by
  intro f
  cases f with
  | commentMarker => exact ⟨Marker.slashes, by decide, rfl⟩
  | tableHeaderDetection => exact ⟨.implicit, rfl⟩
  | _ => exact ⟨_, rfl⟩

theorem commentMarker_truthy {entries : List (Text × Json)} {s : Settings}
    (hs : ofTable entries = .ok s) : s.commentMarker.truthy = true := by
  obtain ⟨haccepts, hvalue⟩ := ofTable_eq_ok_iff.mp hs
  rw [show s.commentMarker = _ from hvalue .commentMarker]
  cases hgiven : Field.commentMarker.given? entries with
  | none => rfl
  | some v => exact haccepts.marker v hgiven

/-- For the comment marker that means that it is a text. -/
theorem Accepts.admits_marker_iff {entries : List (Text × Json)} (h : Accepts entries) {v : Json}
    (hv : Field.commentMarker.given? entries = some v) :
    Field.commentMarker.Admits v ↔ v.text? ≠ none := by
  have htrue := h.marker v hv
  constructor
  · rintro ⟨t, -, rfl⟩
    exact Option.some_ne_none t
  · intro htext
    obtain ⟨t, ht⟩ := Option.ne_none_iff_exists'.mp htext
    cases v <;> cases ht
    -- The empty text is the only one that does not count as true.
    exact ⟨t, by rintro rfl; exact absurd htrue (by decide), rfl⟩

theorem Accepts.not_stumbles {entries : List (Text × Json)} (h : Accepts entries) :
    ¬Stumbles entries :=
  fun hs => hs.elim (Group.not_stumbles_of_takes (h.taken .converter))
    fun hs => Group.not_stumbles_of_takes (h.taken .reader) hs.2

/-- A configuration is refused in words or gives settings that are what they are meant to be, except
if what cannot be put into words is the first to be refused, or if nothing is refused and the
comment marker is set to something that is no text. Of the settings of a configuration that is
accepted all others are always what they are meant to be. -/
theorem ofTable_wellTyped_iff (entries : List (Text × Json)) :
    (((∃ s, ofTable entries = .ok s ∧ s.WellTyped) ∨
        ∃ f, ofTable entries = .error f ∧ f.isTold = true) ↔
      ¬Stumbles entries ∧
        ¬(Accepts entries ∧ ∃ v, Field.commentMarker.given? entries = some v ∧ v.text? = none)) ∧
    ∀ s, ofTable entries = .ok s →
      s.commentMarker.truthy = true ∧ ∀ f : Field, f ≠ .commentMarker → f.Admits (f.value s) := by
  rcases ofTable_cases entries with ⟨s, hs, haccepts, hvalue⟩ | ⟨f, hf, hnot, htold⟩
  · have hadmits (f : Field) :
        f.Admits (f.value s) ↔ ∀ v, f.given? entries = some v → f.Admits v := by
      rw [hvalue]
      cases f.given? entries with
      | none => exact ⟨fun _ => nofun, fun _ => wellTyped_default f⟩
      | some v => exact ⟨fun h _ hv => Option.some.inj hv ▸ h, fun h => h v rfl⟩
    have hothers (f : Field) (hf : f ≠ .commentMarker) : f.Admits (f.value s) :=
      (hadmits f).mpr fun v hv => haccepts.admits hf hv
    have htyped : s.WellTyped ↔ Field.commentMarker.Admits s.commentMarker :=
      ⟨fun h => h .commentMarker, fun h f =>
        if hf : f = .commentMarker then hf ▸ h else hothers f hf⟩
    simp only [hs, Except.ok.injEq, reduceCtorEq, false_and, exists_false, or_false,
      exists_eq_left', forall_eq', haccepts.not_stumbles, not_false_eq_true, true_and, haccepts,
      htyped]
    refine ⟨?_, commentMarker_truthy hs, hothers⟩
    rw [show s.commentMarker = Field.commentMarker.value s from rfl, hadmits, not_exists]
    exact forall_congr' fun v => by
      rw [not_and]
      exact forall_congr' fun hv => haccepts.admits_marker_iff hv
  · refine ⟨?_, fun s hs => absurd (hf.symm.trans hs) nofun⟩
    simp only [hf, reduceCtorEq, false_and, exists_false, false_or, Except.error.injEq,
      exists_eq_left', hnot, not_false_eq_true, and_true, ← htold, Bool.not_eq_false]

/-- A number is accepted as comment marker; the other settings are as they should be. -/
theorem ofTable_wellTyped_numberAsMarker :
    ofTable [("comment_marker".toList, .int 5)] = .ok { commentMarker := .int 5 } ∧
    ¬((∃ s, ofTable [("comment_marker".toList, .int 5)] = .ok s ∧ s.WellTyped) ∨
      ∃ f, ofTable [("comment_marker".toList, .int 5)] = .error f ∧ f.isTold = true) ∧
    ∀ f : Field, f ≠ .commentMarker → f.Admits (f.value { commentMarker := .int 5 }) := by
  have hs : ofTable [("comment_marker".toList, .int 5)] = .ok { commentMarker := .int 5 } := rfl
  refine ⟨hs, fun h => ?_, ((ofTable_wellTyped_iff _).2 _ hs).2⟩
  exact ((ofTable_wellTyped_iff _).1.mp h).2 ⟨(ofTable_eq_ok_iff.mp hs).1, .int 5, rfl, rfl⟩

/-- A switch set to a whole number that is too long to be quoted is not refused in words. -/
theorem stumbles_of_tooLong {n : Int}
    (h : Text.Digit.longest < (Text.Decimal.ofNat n.natAbs).length) :
    Stumbles [("skip_comments".toList, .int n)] := by
  refine .inl ⟨[], _, [], rfl, nofun, ⟨_, rfl, rfl⟩, ?_⟩
  simpa [Json.isQuotable] using h

end Settings

end Asciidoc
