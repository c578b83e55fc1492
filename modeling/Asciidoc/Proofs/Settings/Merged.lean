import Asciidoc.Command.Overrides
import Asciidoc.Command.Run
import Asciidoc.Proofs.Settings.Accepted

/-!
# Settings merged from a configuration and from arguments

Each setting is that of its flag, or else that of the last entry for it, or else the one it has
anyway (`Command.build_merges`). So the order in which a configuration names different settings does
not matter, nor how it spells them (`Settings.Rearranged`), and settings written out as a table come
back as they were.

That the arguments change each group of settings as a whole takes nothing from the other group is
what `Settings.overrideReader_values` and `Settings.override_values` say; that a run has these
settings is `Command.settings_eq_ok_iff`.
-/

namespace Asciidoc

open Setting (Group last? last?_cons spelling)

/-! ## Arguments -/

/-- What flags say about a setting. -/
def Flags.given? (flags : Flags) : Settings.Field → Option Json
  | .skipComments => if flags.keepComments then some (.bool false) else none
  | .commentMarker => none
  | .includeTableHeader => if flags.includeTableHeader then some (.bool true) else none
  | .parseAdmonitions => if flags.noAdmonitionStyles then some (.bool false) else none
  | .admonitionParagraphs => if flags.noAdmonitionParagraphs then some (.bool false) else none
  | .tableHeaderDetection => flags.headerDetection.map fun mode => .ofString mode.name

theorem Flags.find?_values (flags : Flags) (f : Settings.Field) :
    Entries.find? f.name (flags.values f.group) = flags.given? f := by
  obtain ⟨keep, header, styles, paragraphs, mode⟩ := flags
  cases f with
  | skipComments => cases keep <;> cases header <;> rfl
  | commentMarker => cases keep <;> cases header <;> rfl
  | includeTableHeader => cases keep <;> cases header <;> rfl
  | _ => cases styles <;> cases paragraphs <;> cases mode <;> rfl

theorem Flags.given?_of_isEmpty {flags : Flags} {g : Group} (h : (flags.values g).isEmpty = true)
    (f : Settings.Field) : (if f.group = g then flags.given? f else none) = none := by
  split
  · next hf => rw [← flags.find?_values, hf, List.isEmpty_iff.mp h]; rfl
  · rfl

theorem Flags.values_known (flags : Flags) (g : Group) :
    ((flags.values g).all fun (key, _) => (g.find? key).isSome) = true := by
  obtain ⟨keep, header, styles, paragraphs, mode⟩ := flags
  cases g with
  | converter => cases keep <;> cases header <;> rfl
  | reader => cases styles <;> cases paragraphs <;> cases mode <;> rfl

namespace Command

theorem overrides_append (g : Group) (named others : List (Text × Json)) :
    overrides g (named ++ others) = overrides g named ++ overrides g others :=
  List.filterMap_append

theorem overrides_map_append (g g' : Group) (values : List (Text × Json)) :
    overrides g (values.map fun (name, value) => (g'.nameStart ++ name, value))
      = if g = g' then values else [] := by
  rw [overrides, List.filterMap_map]
  split
  · subst g'
    have hself (name : Text) : g.nameStart.isPrefixOf (g.nameStart ++ name) = true :=
      List.isPrefixOf_iff_prefix.mpr (List.prefix_append ..)
    simp only [Function.comp_def, hself, if_true, List.drop_left]
    exact List.filterMap_some
  · rename_i h
    have hother (name : Text) : g.nameStart.isPrefixOf (g'.nameStart ++ name) = false := by
      cases g <;> cases g' <;> first | rfl | exact absurd rfl h
    simp only [Function.comp_def, hother, Bool.false_eq_true, if_false]
    exact List.filterMap_eq_nil_iff.mpr fun _ _ => rfl

/-- The settings of a group among the arguments are those of the flags that are given. -/
theorem overrides_named (g : Group) (a : Arguments) :
    overrides g a.named = a.flags.values g := by
  rw [Arguments.named, overrides_append, overrides_append, overrides_map_append,
    overrides_map_append]
  cases g with
  | converter => exact List.append_nil _
  | reader => rfl

end Command

namespace Settings

variable {s : Settings}

/-- Changing the settings of the reader leaves those of the conversion as they are. -/
theorem overrideReader_values (hmarker : s.commentMarker.truthy = true) (flags : Flags) :
    ∃ s', s.overrideReader (flags.values .reader) = .ok s' ∧
      ∀ f : Field, f.value s'
        = (if f.group = .reader then flags.given? f else none).getD (f.value s) := by
  have hfind (f : Field) (hf : f.group = .reader) :
      Entries.find? f.name (flags.values .reader) = flags.given? f := hf ▸ flags.find?_values f
  rw [overrideReader]
  split
  · rename_i hempty
    exact ⟨s, rfl, fun f => by rw [Flags.given?_of_isEmpty hempty, Option.getD_none]⟩
  · rw [ReaderSettings.change, Group.change, if_pos (flags.values_known .reader)]
    rcases readerPut_cases s (flags.values .reader) with ⟨r, hr, -, hvalue⟩ | ⟨c, -, v, hv, hnot⟩
    · refine ⟨{ s with reader := r }, ?_, fun f => ?_⟩
      · rw [hr, Except.mapError, Except.bind, putReader, hmarker]
        rfl
      · by_cases hf : f.group = .reader
        · rw [if_pos hf, hvalue f hf, hfind f hf]
        · rw [if_neg hf, Option.getD_none]
          cases f <;> first | rfl | exact absurd rfl hf
    · rw [hfind _ rfl] at hv
      obtain ⟨mode, -, rfl⟩ := Option.map_eq_some_iff.mp hv
      exact absurd ⟨mode, rfl⟩ hnot

/-- Changing the settings of the conversion leaves those of the reader as they are. -/
theorem override_values (hmarker : s.commentMarker.truthy = true) (flags : Flags) :
    ∃ s', s.override (flags.values .converter) = .ok s' ∧
      ∀ f : Field, f.value s'
        = (if f.group = .converter then flags.given? f else none).getD (f.value s) := by
  have hfind (f : Field) (hf : f.group = .converter) :
      Entries.find? f.name (flags.values .converter) = flags.given? f := hf ▸ flags.find?_values f
  rw [override]
  split
  · rename_i hempty
    exact ⟨s, rfl, fun f => by rw [Flags.given?_of_isEmpty hempty, Option.getD_none]⟩
  · rw [change, Group.change, if_pos (flags.values_known .converter)]
    have hnone : Entries.find? "reader".toList (flags.values .converter) = none := by
      cases hkeep : flags.keepComments <;> cases hheader : flags.includeTableHeader <;>
        simp [Flags.values, hkeep, hheader, Entries.find?]
    rcases put_cases s hnone with ⟨s', hs', -, hreader, hvalue⟩ | ⟨c, -, hfalse⟩
    · refine ⟨s', by rw [hs', Except.mapError], fun f => ?_⟩
      by_cases hf : f.group = .converter
      · rw [if_pos hf, hvalue f hf, hfind f hf]
      · rw [if_neg hf, Option.getD_none]
        cases f <;> first | exact absurd rfl hf | simp [Field.value, hreader]
    · rw [hfind _ rfl] at hfalse
      exact absurd (hfalse.symm.trans hmarker) Bool.false_ne_true

end Settings

theorem Settings.value_withFlags (s : Settings) (flags : Flags) (f : Settings.Field) :
    f.value (s.withFlags flags) = (flags.given? f).getD (f.value s) := by
  obtain ⟨keep, header, styles, paragraphs, mode⟩ := flags
  cases f with
  | skipComments => cases keep <;> rfl
  | commentMarker => rfl
  | includeTableHeader => cases header <;> rfl
  | parseAdmonitions => cases styles <;> rfl
  | admonitionParagraphs => cases paragraphs <;> rfl
  | tableHeaderDetection => cases mode <;> rfl

namespace Command

/-- The changes that the arguments make come to their flags over the settings of the
configuration; none is refused. -/
theorem build_eq_withFlags (entries : List (Text × Json)) (a : Arguments) :
    build entries a.named
      = ((Settings.ofTable entries).map (·.withFlags a.flags)).mapError .configuration := by
  cases hs : Settings.ofTable entries with
  | error f => simp only [build, hs, Except.mapError, Except.map, bind, Except.bind]
  | ok s =>
    have hmarker : s.commentMarker.truthy = true := Settings.commentMarker_truthy hs
    obtain ⟨s', hs', hvalue'⟩ := Settings.overrideReader_values hmarker a.flags
    have hmarker' : s'.commentMarker.truthy = true := by
      rw [show s'.commentMarker = s.commentMarker from hvalue' .commentMarker, hmarker]
    obtain ⟨s'', hs'', hvalue''⟩ := Settings.override_values hmarker' a.flags
    -- Each field is changed at most once, since no flag belongs to both groups.
    have hflags : s'' = s.withFlags a.flags := by
      refine Settings.eq_of_forall_value_eq fun f => ?_
      rw [hvalue'', hvalue', Settings.value_withFlags]
      cases hf : f.group <;> simp
    simp only [build, overrides_named, hs, hs', hs'', hflags, bind, Except.bind, Except.mapError,
      Except.map]

/-- What the settings of a run start from: the table in its configuration file, if it has one. -/
def configuredEntries (formats : Config.Formats Json) (files : FileTree) :
    Option Path → Except ConfigStop (List (Text × Json))
  | none => .ok []
  | some p => Config.load formats p (files.entry p)

theorem configured_eq (formats : Config.Formats Json) (files : FileTree) (found : Option Path) :
    configured formats files found = (configuredEntries formats files found).bind fun entries =>
      (Settings.ofTable entries).mapError .ofSettings := by
  cases found <;> rfl

/-- A run has the settings that come of its configuration file and its arguments. The file is read
when it has been reported where the configuration comes from, so with that in it if it is the log
file too. -/
theorem settings_eq_ok_iff {around : Surroundings} {r : Reporting} {a : Arguments}
    {session : Session} {found : Option (Text × Path)} {entries : List (Text × Json)} {s : Settings}
    (hfound : configuration? around session.files a = .ok found)
    (hentries : configuredEntries around.formats (settings around r a session).2.files
      (found.map (·.2)) = .ok entries) :
    (settings around r a session).1 = .ok s ↔ build entries a.named = .ok s := by
  rw [settings, hfound] at hentries ⊢
  simp only [configured_eq] at hentries ⊢
  rw [hentries, build_eq_withFlags]
  simp only [Except.bind]
  cases Settings.ofTable entries <;> simp [Except.map, Except.mapError]

end Command

/-! ## Configurations -/

namespace Settings

/-- An entry gives a setting of a group a value that it is meant to have. -/
def IsSetting (g : Group) (e : Text × Json) : Prop :=
  ∃ f : Field, f.group = g ∧ f.name = spelling e.1 ∧ f.Admits e.2

/-- Every entry gives a setting a value that it is meant to have, or is null or a table of such
entries for the settings of the reader. -/
def IsConfiguration (entries : List (Text × Json)) : Prop :=
  ∀ e ∈ entries, IsSetting .converter e ∨ spelling e.1 = "reader".toList ∧
    (e.2 = .null ∨ ∃ settings, e.2 = .table settings ∧ ∀ e' ∈ settings, IsSetting .reader e')

variable {entries entries' : List (Text × Json)} {f : Field} {v : Json}

theorem Field.name_ne_reader (f : Field) : f.name ≠ "reader".toList := by
  cases f <;> decide

theorem Field.name_injective {f f' : Field} (h : f.name = f'.name) : f = f' := by
  revert h
  cases f <;> cases f' <;> decide

/-- An entry that gives a setting a value that it is meant to have is taken. -/
theorem IsSetting.takes {g : Group} {e : Text × Json} (h : IsSetting g e) : g.Takes e := by
  obtain ⟨f, rfl, hname, hadmits⟩ := h
  rw [Group.Takes, ← hname]
  cases f with
  | commentMarker => exact ⟨_, rfl, fun h => absurd h Bool.false_ne_true⟩
  | tableHeaderDetection => exact ⟨_, rfl, fun h => absurd h Bool.false_ne_true⟩
  | _ => exact ⟨_, rfl, fun _ => hadmits⟩

/-- An entry for the settings of the reader is null or a table of entries for them. -/
theorem IsConfiguration.of_reader (h : IsConfiguration entries)
    (hv : last? "reader".toList entries = some v) :
    v = .null ∨ ∃ settings, v = .table settings ∧ ∀ e ∈ settings, IsSetting .reader e := by
  obtain ⟨e, he, hname, rfl⟩ := Setting.exists_of_last?_eq_some hv
  rcases h e he with ⟨f, -, hname', -⟩ | ⟨-, hvalue⟩
  · exact absurd (hname'.trans hname) f.name_ne_reader
  · exact hvalue

theorem IsConfiguration.part_reader (h : IsConfiguration entries) :
    ∀ e ∈ Group.reader.part entries, IsSetting .reader e := by
  rw [Group.part]
  cases hgiven : last? "reader".toList entries with
  | none => exact nofun
  | some v =>
    rcases h.of_reader hgiven with rfl | ⟨settings, rfl, hsettings⟩
    · exact nofun
    · exact hsettings

/-- What a configuration says about a setting is a value that it is meant to have. -/
theorem IsConfiguration.admits (h : IsConfiguration entries) (hv : f.given? entries = some v) :
    f.Admits v := by
  obtain ⟨e, he, hname, rfl⟩ := Setting.exists_of_last?_eq_some hv
  have hsetting : IsSetting f.group e := by
    cases hf : f.group with
    | converter =>
      rw [hf] at he
      exact (h e he).resolve_right fun hreader => f.name_ne_reader (hname.symm.trans hreader.1)
    | reader =>
      rw [hf] at he
      exact h.part_reader e he
  obtain ⟨f', -, hname', hadmits⟩ := hsetting
  exact Field.name_injective (hname'.trans hname) ▸ hadmits

theorem IsConfiguration.accepts (h : IsConfiguration entries) : Accepts entries where
  taken g e he := by
    cases g with
    | converter =>
      rcases h e he with hsetting | ⟨hname, -⟩
      · exact hsetting.takes
      · exact ⟨_, congrArg Group.converter.find? hname, nofun⟩
    | reader => exact (h.part_reader e he).takes
  reader v hv := (h.of_reader hv).imp_right fun ⟨settings, htable, _⟩ => ⟨settings, htable⟩
  detection _ hv := h.admits hv
  marker v hv := by
    obtain ⟨t, ht, rfl⟩ := h.admits hv
    simpa [Json.truthy] using ht

/-! ## The order and the spelling of entries -/

/-- Entries with keys spelled differently, here and in the table for the settings of the reader, and
with entries for different settings in another order. -/
inductive Rearranged : List (Text × Json) → List (Text × Json) → Prop
  | nil : Rearranged [] []
  | respelled {key key' : Text} {v : Json} {entries entries' : List (Text × Json)}
    (hkey : spelling key = spelling key') (h : Rearranged entries entries') :
    Rearranged ((key, v) :: entries) ((key', v) :: entries')
  | nested {key key' : Text} {table table' entries entries' : List (Text × Json)}
    (hkey : spelling key = "reader".toList) (hkey' : spelling key' = "reader".toList)
    (htable : Rearranged table table') (h : Rearranged entries entries') :
    Rearranged ((key, .table table) :: entries) ((key', .table table') :: entries')
  | swapped {e e' : Text × Json} {entries : List (Text × Json)}
    (hne : spelling e.1 ≠ spelling e'.1) : Rearranged (e :: e' :: entries) (e' :: e :: entries)
  | trans {entries entries' others : List (Text × Json)} (h : Rearranged entries entries')
    (h' : Rearranged entries' others) : Rearranged entries others

namespace Rearranged

theorem refl : ∀ entries : List (Text × Json), Rearranged entries entries
  | [] => .nil
  | (_, _) :: entries => .respelled rfl (refl entries)

theorem last?_swap {e e' : Text × Json} (hne : spelling e.1 ≠ spelling e'.1) (name : Text) :
    last? name (e :: e' :: entries) = last? name (e' :: e :: entries) := by
  simp only [last?_cons, Option.or_assoc]
  congr 1
  by_cases he : spelling e.1 = name
  · rw [if_pos he, if_neg fun he' => hne (he.trans he'.symm), Option.none_or, Option.or_none]
  · rw [if_neg he, Option.none_or, Option.or_none]

theorem last?_eq (h : Rearranged entries entries') {name : Text} (hname : name ≠ "reader".toList) :
    last? name entries = last? name entries' := by
  induction h with
  | nil => rfl
  | respelled hkey _ ih => rw [last?_cons, last?_cons, hkey, ih]
  | nested hkey hkey' _ _ _ ih =>
    rw [last?_cons, last?_cons, hkey, hkey', if_neg hname.symm, if_neg hname.symm, ih]
  | swapped hne => exact last?_swap hne name
  | trans _ _ ih ih' => exact ih.trans ih'

/-- The last entries for the settings of the reader are the same, or tables that are rearranged
themselves. -/
theorem last?_reader (h : Rearranged entries entries') :
    last? "reader".toList entries = last? "reader".toList entries' ∨
      ∃ table table', last? "reader".toList entries = some (.table table) ∧
        last? "reader".toList entries' = some (.table table') ∧ Rearranged table table' := by
  induction h with
  | nil => exact .inl rfl
  | respelled hkey _ ih =>
    rw [last?_cons, last?_cons, hkey]
    rcases ih with ih | ⟨table, table', ht, ht', h⟩
    · exact .inl (by rw [ih])
    · exact .inr ⟨table, table', by rw [ht, Option.some_or], by rw [ht', Option.some_or], h⟩
  | nested hkey hkey' htable _ _ ih =>
    rw [last?_cons, last?_cons, if_pos hkey, if_pos hkey']
    rcases ih with ih | ⟨table, table', ht, ht', h⟩
    · -- Only if no later entry is for them do the two tables count.
      rw [ih]
      cases last? "reader".toList _ with
      | none => exact .inr ⟨_, _, rfl, rfl, htable⟩
      | some v => exact .inl rfl
    · exact .inr ⟨table, table', by rw [ht, Option.some_or], by rw [ht', Option.some_or], h⟩
  | swapped hne => exact .inl (last?_swap hne _)
  | trans _ _ ih ih' =>
    rcases ih with ih | ⟨table, table', ht, ht', h⟩
    · rwa [ih]
    · rcases ih' with ih' | ⟨_, other, hu, hother, h'⟩
      · exact .inr ⟨table, table', ht, ih' ▸ ht', h⟩
      · obtain ⟨⟩ := ht'.symm.trans hu
        exact .inr ⟨table, other, ht, hother, h.trans h'⟩

theorem part (h : Rearranged entries entries') (g : Group) :
    Rearranged (g.part entries) (g.part entries') := by
  cases g with
  | converter => exact h
  | reader =>
    rw [Group.part, Group.part]
    rcases h.last?_reader with heq | ⟨table, table', ht, ht', h⟩
    · rw [heq]
      exact refl _
    · rw [ht, ht']
      exact h

/-- Rearranged entries say the same about each setting. -/
theorem given?_eq (h : Rearranged entries entries') (f : Field) :
    f.given? entries = f.given? entries' :=
  (h.part f.group).last?_eq f.name_ne_reader

theorem isSetting (h : Rearranged entries entries') {g : Group}
    (hentries : ∀ e ∈ entries, IsSetting g e) : ∀ e ∈ entries', IsSetting g e := by
  induction h with
  | nil => exact nofun
  | respelled hkey _ ih =>
    rw [List.forall_mem_cons] at hentries ⊢
    obtain ⟨⟨f, hf, hname, hadmits⟩, hrest⟩ := hentries
    exact ⟨⟨f, hf, hname.trans hkey, hadmits⟩, ih hrest⟩
  | nested hkey _ _ _ _ _ =>
    obtain ⟨⟨f, -, hname, -⟩, -⟩ := List.forall_mem_cons.mp hentries
    exact absurd (hname.trans hkey) f.name_ne_reader
  | swapped _ => exact fun e he => hentries e ((List.Perm.swap ..).mem_iff.mp he)
  | trans _ _ ih ih' => exact ih' (ih hentries)

theorem isConfiguration (h : Rearranged entries entries') (hentries : IsConfiguration entries) :
    IsConfiguration entries' := by
  induction h with
  | nil => exact nofun
  | respelled hkey _ ih =>
    rw [IsConfiguration, List.forall_mem_cons] at hentries ⊢
    obtain ⟨he, hrest⟩ := hentries
    refine ⟨he.imp ?_ ?_, ih hrest⟩
    · exact fun ⟨f, hf, hname, hadmits⟩ => ⟨f, hf, hname.trans hkey, hadmits⟩
    · exact fun ⟨hname, hvalue⟩ => ⟨hkey.symm.trans hname, hvalue⟩
  | nested hkey hkey' htable _ _ ih =>
    rw [IsConfiguration, List.forall_mem_cons] at hentries ⊢
    obtain ⟨he, hrest⟩ := hentries
    rcases he with ⟨f, -, hname, -⟩ | ⟨-, hnull | ⟨settings, hsettings, hall⟩⟩
    · exact absurd (hname.trans hkey) f.name_ne_reader
    · exact absurd hnull nofun
    · obtain rfl := Json.table.inj hsettings
      exact ⟨.inr ⟨hkey', .inr ⟨_, rfl, htable.isSetting hall⟩⟩, ih hrest⟩
  | swapped _ => exact fun e he => hentries e ((List.Perm.swap ..).mem_iff.mp he)
  | trans _ _ ih ih' => exact ih' (ih hentries)

end Rearranged

/-! ## Settings written out -/

/-- Settings as a table, with those of the reader in a table of their own. -/
def table (s : Settings) : List (Text × Json) :=
  let entry (f : Field) : Text × Json := (f.name, f.value s)
  [entry .skipComments, entry .commentMarker, entry .includeTableHeader,
    ("reader".toList, .table
      [entry .parseAdmonitions, entry .admonitionParagraphs, entry .tableHeaderDetection])]

theorem given?_table (s : Settings) (f : Field) : f.given? s.table = some (f.value s) := by
  cases f <;> rfl

theorem WellTyped.isConfiguration_table {s : Settings} (h : s.WellTyped) :
    IsConfiguration s.table := by
  have hentry (f : Field) : IsSetting f.group (f.name, f.value s) :=
    ⟨f, rfl, by cases f <;> rfl, h f⟩
  rw [IsConfiguration, table]
  simp only [List.forall_mem_cons]
  refine ⟨.inl (hentry .skipComments), .inl (hentry .commentMarker),
    .inl (hentry .includeTableHeader), .inr ⟨rfl, .inr ⟨_, rfl, ?_⟩⟩, nofun⟩
  simp only [List.forall_mem_cons]
  exact ⟨hentry .parseAdmonitions, hentry .admonitionParagraphs, hentry .tableHeaderDetection,
    nofun⟩

end Settings

/-! ## Merging -/

namespace Command

open Settings

/-- Each setting of a configuration and arguments is that of its flag, or else that of the last
entry for it, or else the one it has anyway. How keys are spelled and in which order different
settings come does not matter. Settings written out as a table come back as they were. -/
theorem build_merges :
    (∀ entries, IsConfiguration entries → ∀ a : Arguments, ∃ s, build entries a.named = .ok s ∧
      (∀ f : Field, f.value s = ((a.flags.given? f).or (f.given? entries)).getD (f.value {})) ∧
      ∀ entries', Rearranged entries entries' → build entries' a.named = .ok s) ∧
    ∀ s : Settings, s.WellTyped → ofTable s.table = .ok s := by
  constructor
  · intro entries h a
    obtain ⟨s, hs, hvalue⟩ := ofTable_of_accepts h.accepts
    refine ⟨s.withFlags a.flags, by rw [build_eq_withFlags, hs]; rfl, fun f => ?_,
      fun entries' hrearranged => ?_⟩
    · rw [value_withFlags, hvalue]
      cases a.flags.given? f <;> rfl
    · have hs' : ofTable entries' = .ok s := ofTable_eq_ok_iff.mpr
        ⟨(hrearranged.isConfiguration h).accepts, fun f => hrearranged.given?_eq f ▸ hvalue f⟩
      rw [build_eq_withFlags, hs']
      rfl
  · intro s h
    exact ofTable_eq_ok_iff.mpr
      ⟨h.isConfiguration_table.accepts, fun f => by rw [given?_table, Option.getD_some]⟩

/-- A setting spelled in two ways, one of the reader beside it and then between, a flag over both,
and a comment marker written out. -/
theorem build_merges_respelled :
    let a : Arguments := { flags := { headerDetection := some .never } }
    let reader : Json := .table [("parse-admonitions".toList, .bool false)]
    (∃ s, build [("skip-comments".toList, .bool true), ("skip_comments".toList, .bool false),
        ("reader".toList, reader)] a.named = .ok s ∧
      (s.skipComments = .bool false ∧ s.reader.parseAdmonitions = .bool false ∧
        Field.tableHeaderDetection.value s = .ofString "none") ∧
      build [("skip_comments".toList, .bool true), ("reader".toList, reader),
        ("skip-comments".toList, .bool false)] a.named = .ok s) ∧
    ofTable (table { commentMarker := .string ['#'] }) = .ok { commentMarker := .string ['#'] } := by
  intro a reader
  have hentries : IsConfiguration [("skip-comments".toList, .bool true),
      ("skip_comments".toList, .bool false), ("reader".toList, reader)] := by
    simp only [IsConfiguration, List.forall_mem_cons]
    refine ⟨.inl ⟨.skipComments, rfl, rfl, _, rfl⟩, .inl ⟨.skipComments, rfl, rfl, _, rfl⟩,
      .inr ⟨rfl, .inr ⟨_, rfl, ?_⟩⟩, nofun⟩
    exact List.forall_mem_cons.mpr ⟨⟨.parseAdmonitions, rfl, rfl, _, rfl⟩, nofun⟩
  have hrearranged : Rearranged [("skip-comments".toList, .bool true),
        ("skip_comments".toList, .bool false), ("reader".toList, reader)]
      [("skip_comments".toList, .bool true), ("reader".toList, reader),
        ("skip-comments".toList, .bool false)] :=
    .respelled (by decide) (.trans (.respelled (by decide) (.refl _)) (.swapped (by decide)))
  constructor
  · obtain ⟨s, hs, hvalue, hsame⟩ := build_merges.1 _ hentries a
    exact ⟨s, hs, ⟨hvalue .skipComments, hvalue .parseAdmonitions, hvalue .tableHeaderDetection⟩,
      hsame _ hrearranged⟩
  · refine build_merges.2 _ fun f => ?_
    cases f with
    | commentMarker => exact ⟨['#'], by decide, rfl⟩
    | tableHeaderDetection => exact ⟨.implicit, rfl⟩
    | _ => exact ⟨_, rfl⟩

end Command

end Asciidoc
