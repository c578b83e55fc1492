import Asciidoc.Config.File
import Mathlib.Data.List.Iterate

/-!
# Which configuration file is found

A search visits places in a fixed order (`Config.places`): in each directory, from one upward to the
root, the dedicated names and then the project file, and at last the dedicated names in the home
directory. It is one search through the list of them all, although it is written as a loop over
directories that looks for two kinds of files in each and passes over project files that cannot be
used (`Config.discover_eq_findM?`). So a search that comes to an end has found the first place with
a usable file, and nothing only if there is none (`Config.discover_finds_first`).

What is usable is said of the file alone, without the search: a project file has to be in its format
and to have a section with settings in it. Loading it gives these settings.

A search that is stopped is left out: by a place of which nobody can tell what is there, or by a
project file, as `Config.holdsSettings_crash_iff` says.
-/

namespace Asciidoc

/-! ## Directories upward -/

namespace Path

/-- The directory that a path is in. A root is in itself. -/
def parent (p : Path) : Path := { p with parts := p.parts.dropLast }

theorem iterate_parent (p : Path) (n : Nat) :
    parent^[n] p = { p with parts := p.parts.take (p.parts.length - n) } := by
  induction n with
  | zero => simp
  | succ n ih =>
    rw [Function.iterate_succ_apply', ih, parent]
    simp only [mk.injEq, true_and, List.dropLast_eq_take, List.length_take, List.take_take]
    congr 1
    omega

/-- The directories from one upward are what taking parents goes through. As many steps as there are
names lead to the root, which is its own parent. -/
theorem upToRoot_eq_iterate (p : Path) :
    p.upToRoot = List.iterate parent p (p.parts.length + 1) := by
  rw [← List.range_map_iterate, upToRoot]
  exact List.map_congr_left fun n _ => (iterate_parent p n).symm

@[simp] theorem name_child (directory : Path) (name : Text) :
    (directory.child name).name = name := by
  simp [child, Path.name]

end Path

/-! ## Searches that may be stopped -/

section Search

variable {α ε : Type} {test : α → Except ε Bool} {xs ys : List α} {found : Option α}

theorem findM?_append (test : α → Except ε Bool) (xs ys : List α) :
    (xs ++ ys).findM? test = (do
      match ← xs.findM? test with
      | some a => return some a
      | none => ys.findM? test) := by
  induction xs with
  | nil => rfl
  | cons a rest ih =>
    simp only [List.cons_append, List.findM?]
    cases test a with
    | error e => rfl
    | ok passes =>
      cases passes with
      | true => rfl
      | false => exact ih

/-- Whether a test is passed. -/
def isPassed : Except ε Bool → Bool
  | .ok passes => passes
  | .error _ => false

theorem isPassed_iff {x : Except ε Bool} : isPassed x = true ↔ x = .ok true := by
  cases x <;> simp [isPassed]

/-- A search that comes to an end finds what is first to pass. -/
theorem find?_of_findM? (h : xs.findM? test = .ok found) :
    found = xs.find? fun a => isPassed (test a) := by
  induction xs with
  | nil => exact (Except.ok.inj h).symm
  | cons a rest ih =>
    rw [List.findM?] at h
    rw [List.find?_cons]
    cases ha : test a with
    | error e =>
      rw [ha] at h
      cases h
    | ok passes =>
      rw [ha] at h
      cases passes with
      | true => exact (Except.ok.inj h).symm
      | false => exact ih h

/-- An element is the first of a list that has a property. -/
def IsFirst (P : α → Prop) (xs : List α) (a : α) : Prop :=
  ∃ before after, xs = before ++ a :: after ∧ P a ∧ ∀ b ∈ before, ¬P b

theorem find?_eq_some_iff_isFirst {P : α → Prop} {p : α → Bool} (hp : ∀ a, p a = true ↔ P a)
    {a : α} : xs.find? p = some a ↔ IsFirst P xs a := by
  simp only [List.find?_eq_some_iff_append, IsFirst, ← hp, Bool.not_eq_true', Bool.not_eq_true]
  constructor
  · rintro ⟨ha, before, after, hxs, hbefore⟩
    exact ⟨before, after, hxs, ha, hbefore⟩
  · rintro ⟨before, after, hxs, ha, hbefore⟩
    exact ⟨ha, before, after, hxs, hbefore⟩

end Search

/-! ## Places -/

namespace Config

/-- The places where a search from a directory looks, in order. -/
def places (directory home : Path) : List Path :=
  (List.iterate Path.parent directory (directory.parts.length + 1)).flatMap
      (fun d => (dedicatedNames ++ [projectName]).map d.child)
    ++ dedicatedNames.map home.child

section Usable

variable {α : Type} (formats : Formats α) (entry : Path → PathContent)

/-- Bytes are a project file with settings: they are in the format of project files, and what they
hold under the name of the tools is a table with a section that is a table. -/
inductive HasSection (bytes : ByteArray) : List (Text × α) → Prop
  | intro {t : Text} {table tools settings : List (Text × α)} {given value : α}
    (htext : Text.Utf8.decode? bytes = some t) (htable : formats.toml t = .ok table)
    (hgiven : Entries.find? "tool".toList table = some given)
    (htools : formats.entries? given = some tools)
    (hvalue : Entries.find? projectSection.toList tools = some value)
    (hnotNull : formats.isNull value = false) (hsettings : formats.entries? value = some settings) :
    HasSection bytes settings

/-- There is a file at a path, and if it is a project file, it can be opened and has settings, and
not none. -/
def Usable (p : Path) : Prop :=
  (entry p).isFile = true ∧
    (p.name = projectName → ∃ bytes settings, entry p = .file bytes ∧
      HasSection formats bytes settings ∧ settings ≠ [])

/-- What a search finds out about a place. -/
def passes (p : Path) : Except ConfigCrash Bool :=
  if p.name = projectName then holdsSettings formats entry p else isFile entry p

end Usable

variable {α : Type} {formats : Formats α} {entry : Path → PathContent}
  {p directory home : Path} {bytes : ByteArray} {settings : List (Text × α)}

/-! ### Project files -/

theorem projectSettings_eq_ok_iff {path : Path} {table : List (Text × α)} (hne : settings ≠ []) :
    projectSettings formats path table = .ok settings ↔
      ∃ given tools value, Entries.find? "tool".toList table = some given ∧
        formats.entries? given = some tools ∧
        Entries.find? projectSection.toList tools = some value ∧ formats.isNull value = false ∧
        formats.entries? value = some settings := by
  have hempty : (Except.ok [] : Except ConfigStop (List (Text × α))) = .ok settings ↔ False :=
    iff_of_false (fun h => hne (Except.ok.inj h).symm) id
  rw [projectSettings]
  cases Entries.find? "tool".toList table with
  | none => simp [hempty]
  | some given =>
    cases htools : formats.entries? given with
    | none => simp [htools]
    | some tools =>
      cases hvalue : Entries.find? projectSection.toList tools with
      | none => simp [htools, hvalue, hempty]
      | some value =>
        cases hnull : formats.isNull value with
        | true => simp [htools, hvalue, hnull, hempty]
        | false =>
          cases hsettings : formats.entries? value <;> simp [htools, hvalue, hnull, hsettings]

/-- A project file is loaded with settings exactly if it has them. -/
theorem load_project_eq_ok_iff {path : Path} (hne : settings ≠ []) :
    Format.project.load formats path bytes = .ok settings ↔ HasSection formats bytes settings := by
  constructor
  · intro h
    rw [Format.load] at h
    cases htext : Text.Utf8.decode? bytes with
    | none =>
      simp only [Format.text?, htext] at h
      cases h
    | some t =>
      simp only [Format.text?, htext, Format.settings] at h
      cases htable : formats.toml t with
      | error fault =>
        rw [htable] at h
        cases h
      | ok table =>
        rw [htable] at h
        obtain ⟨given, tools, value, hgiven, htools, hvalue, hnull, hsettings⟩ :=
          (projectSettings_eq_ok_iff hne).mp h
        exact .intro htext htable hgiven htools hvalue hnull hsettings
  · rintro ⟨htext, htable, hgiven, htools, hvalue, hnull, hsettings⟩
    simp only [Format.load, Format.text?, htext, Format.settings, htable]
    exact (projectSettings_eq_ok_iff hne).mpr ⟨_, _, _, hgiven, htools, hvalue, hnull, hsettings⟩

theorem holdsSettings_eq_true_iff :
    holdsSettings formats entry p = .ok true ↔
      ∃ bytes settings, entry p = .file bytes ∧ HasSection formats bytes settings ∧
        settings ≠ [] := by
  rw [holdsSettings]
  cases entry p with
  | missing | directory | sealed | hidden fault => simp
  | file bytes =>
    simp only [PathContent.file.injEq, exists_and_left, exists_eq_left']
    constructor
    · intro h
      cases hload : Format.project.load formats p bytes with
      | error stop =>
        rw [hload] at h
        cases stop <;> cases h
      | ok settings =>
        rw [hload] at h
        have hne : settings ≠ [] := by
          rintro rfl
          cases h
        exact ⟨settings, (load_project_eq_ok_iff hne).mp hload, hne⟩
    · rintro ⟨settings, hsection, hne⟩
      rw [(load_project_eq_ok_iff hne).mpr hsection]
      cases settings with
      | nil => exact absurd rfl hne
      | cons => rfl

theorem isFile_eq_true_iff : isFile entry p = .ok true ↔ (entry p).isFile = true := by
  rw [isFile]
  cases entry p <;> simp [PathContent.isFile]

/-- A place passes exactly if it is usable. -/
theorem passes_eq_true_iff : passes formats entry p = .ok true ↔ Usable formats entry p := by
  rw [passes, Usable]
  split
  next hproject =>
    rw [holdsSettings_eq_true_iff]
    refine ⟨fun h => ⟨?_, fun _ => h⟩, fun h => h.2 hproject⟩
    obtain ⟨bytes, settings, hentry, -⟩ := h
    rw [hentry]
    rfl
  next hproject => simp [isFile_eq_true_iff, hproject]

/-! ### The search -/

theorem projectName_not_mem : projectName ∉ dedicatedNames := by decide

/-- The dedicated names of a directory, looked for one after the other. -/
theorem findM?_dedicated (formats : Formats α) (entry : Path → PathContent) (d : Path) :
    (dedicatedNames.map d.child).findM? (passes formats entry) = dedicated? entry d := by
  have hnames {names : List Text} (h : projectName ∉ names) :
      (names.map d.child).findM? (passes formats entry)
        = (names.map d.child).findM? (isFile entry) := by
    induction names with
    | nil => rfl
    | cons name rest ih =>
      have hname : passes formats entry (d.child name) = isFile entry (d.child name) :=
        if_neg fun heq => h (by rw [← heq, Path.name_child]; exact List.mem_cons_self)
      rw [List.map_cons, List.findM?, List.findM?, hname,
        ih fun hmem => h (List.mem_cons_of_mem _ hmem)]
  exact hnames projectName_not_mem

theorem findIn_eq_findM? (formats : Formats α) (entry : Path → PathContent) (ds : List Path) :
    findIn formats entry ds
      = (ds.flatMap fun d => (dedicatedNames ++ [projectName]).map d.child).findM?
        (passes formats entry) := by
  induction ds with
  | nil => rfl
  | cons d rest ih =>
    have hproject : passes formats entry (d.child projectName)
        = holdsSettings formats entry (d.child projectName) := if_pos (Path.name_child _ _)
    rw [findIn, List.flatMap_cons, List.map_append, List.append_assoc, findM?_append,
      findM?_dedicated, List.map_singleton, List.singleton_append, List.findM?, hproject]
    cases dedicated? entry d with
    | error c => rfl
    | ok found =>
      cases found with
      | some p => rfl
      | none =>
        dsimp only [bind, Except.bind]
        cases holdsSettings formats entry (d.child projectName) with
        | error c => rfl
        | ok holds =>
          cases holds with
          | true => rfl
          | false => exact ih

/-- The search from a directory upward and in the home directory is one search through all
places. -/
theorem discover_eq_findM? (formats : Formats α) (entry : Path → PathContent)
    (directory home : Path) :
    discover formats entry directory home
      = (places directory home).findM? (passes formats entry) := by
  rw [discover, places, findM?_append, ← Path.upToRoot_eq_iterate, ← findIn_eq_findM?,
    findM?_dedicated]
  cases findIn formats entry directory.upToRoot with
  | error c => rfl
  | ok found => cases found <;> rfl

/-- A search that comes to an end has found the first place with a usable file, and nothing exactly
if there is none. Loading a project file that it has found gives the settings in its section, and
there are some. -/
theorem discover_finds_first (formats : Formats α) (entry : Path → PathContent)
    (directory home : Path) {found : Option Path}
    (h : discover formats entry directory home = .ok found) :
    (∀ p, found = some p ↔ IsFirst (Usable formats entry) (places directory home) p) ∧
      (found = none ↔ ∀ p ∈ places directory home, ¬Usable formats entry p) ∧
      ∀ p, found = some p → p.name = projectName →
        ∃ bytes settings, entry p = .file bytes ∧ HasSection formats bytes settings ∧
          settings ≠ [] ∧ load formats p (entry p) = .ok settings := by
  have hpasses (p : Path) : isPassed (passes formats entry p) = true ↔ Usable formats entry p :=
    isPassed_iff.trans passes_eq_true_iff
  rw [discover_eq_findM?] at h
  obtain rfl := find?_of_findM? h
  refine ⟨fun p => find?_eq_some_iff_isFirst hpasses, ?_, fun p hfound hname => ?_⟩
  · simp only [List.find?_eq_none, hpasses]
  · obtain ⟨-, -, -, ⟨-, hproject⟩, -⟩ := (find?_eq_some_iff_isFirst hpasses).mp hfound
    obtain ⟨bytes, settings, hentry, hsection, hne⟩ := hproject hname
    have hformat : Format.ofPath? p = some .project := by
      rw [Format.ofPath?, hname]
      rfl
    refine ⟨bytes, settings, hentry, hsection, hne, ?_⟩
    rw [hentry, load.eq_def]
    simp only [hformat]
    exact (load_project_eq_ok_iff hne).mpr hsection

/-- A broken project file below one with settings, and a dedicated file in the home directory. -/
def brokenBelowSettings : FileTree :=
  ⟨['/'], ["w".toList, "d".toList],
    [(["w".toList, "d".toList, projectName], .file "[".toUTF8),
      (["w".toList, projectName], .file "[tool.adocast]\nskip_comments = false\n".toUTF8),
      (["h".toList, ".adocast.json".toList], .file "\x7b\x7d".toUTF8)]⟩

/-- The project file above the broken one is found, before the file in the home directory. -/
theorem discover_finds_first_above :
    IsFirst (Usable .plain brokenBelowSettings.entry)
        (places brokenBelowSettings.here ⟨['/'], ["h".toList]⟩)
        ⟨['/'], ["w".toList, projectName]⟩ ∧
      ∃ settings, load .plain ⟨['/'], ["w".toList, projectName]⟩
        (brokenBelowSettings.entry ⟨['/'], ["w".toList, projectName]⟩) = .ok settings ∧
        settings ≠ [] := by
  have hfound : discover .plain brokenBelowSettings.entry brokenBelowSettings.here
      ⟨['/'], ["h".toList]⟩ = .ok (some ⟨['/'], ["w".toList, projectName]⟩) := by
    decide +kernel
  obtain ⟨hfirst, -, hload⟩ := discover_finds_first _ _ _ _ hfound
  obtain ⟨_, settings, -, -, hne, hsettings⟩ := hload _ rfl rfl
  exact ⟨(hfirst _).mp rfl, settings, hsettings, hne⟩

end Config

end Asciidoc
