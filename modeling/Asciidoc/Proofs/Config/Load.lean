import Asciidoc.Config.File
import Mathlib.Data.Option.Basic

/-!
# When a configuration file stops the program

A configuration file is meant to be read or refused. It stops the program instead if its bytes are
no UTF-8, if a numeral in it is too long for the reader of its format, or if it is a project file
whose tools are no table (`Config.Format.Stops`). So does a path of which nobody can tell what is
there. Nothing else does (`Config.load_crash_iff`): what is no file, what nobody may open, what has
no known format, malformed texts and tables that are none are all refused.

This is so for all readers of the formats, whatever values they give. A reader that gives up only on
malformed texts leaves the bytes and the tools. The search for a file meets the same project files
(`Config.holdsSettings_crash_iff`).
-/

namespace Asciidoc.Config

section Stops

variable {α : Type} (formats : Formats α)

/-- A numeral in a text is too long for the reader of a format. -/
def Format.IsTooLong : Format → Text → Prop
  | .project, t | .toml, t => formats.toml t = .error .tooLong
  | .yaml, t => formats.yaml t = .error .tooLong
  | .json, t => formats.json t = .error .tooLong

/-- How bytes in a format stop the program. -/
inductive Format.Stops : Format → ByteArray → ConfigCrash → Prop
  | notUtf8 {format : Format} {bytes : ByteArray} (h : format.text? bytes = none) :
    Stops format bytes .notUtf8
  | numeralTooLong {format : Format} {bytes : ByteArray} {t : Text}
    (ht : format.text? bytes = some t) (h : format.IsTooLong formats t) :
    Stops format bytes .numeralTooLong
  | toolsNotTable {bytes : ByteArray} {t : Text} {table : List (Text × α)} {tools : α}
    (ht : Format.project.text? bytes = some t) (htable : formats.toml t = .ok table)
    (htools : Entries.find? "tool".toList table = some tools) (h : formats.entries? tools = none) :
    Stops .project bytes .toolsNotTable

end Stops

variable {α : Type} {formats : Formats α} {path : Path} {c : ConfigCrash}

/-- A reader stops the program only over a numeral that is too long. -/
theorem mapError_ofReading_crash_iff {β : Type} {x : Except Json.ReadFault β} {f : ConfigFault} :
    x.mapError (ConfigStop.ofReading f) = .error (ConfigStop.crash c) ↔
      x = .error .tooLong ∧ c = .numeralTooLong := by
  cases x with
  | ok a => simp [Except.mapError]
  | error fault => cases fault <;> simp [Except.mapError, ConfigStop.ofReading, eq_comm]

theorem bind_mapError_ofReading_crash_iff {β γ : Type} {x : Except Json.ReadFault β}
    {f : ConfigFault} {next : β → Except ConfigStop γ} :
    x.mapError (ConfigStop.ofReading f) >>= next = .error (.crash c) ↔
      (x = .error .tooLong ∧ c = .numeralTooLong) ∨
        ∃ b, x = .ok b ∧ next b = .error (.crash c) := by
  rw [← mapError_ofReading_crash_iff (f := f)]
  cases x <;> simp [bind, Except.bind, Except.mapError]

/-- What a value is is refused if it is no table. -/
theorem settingsOf_ne_crash (value : α) : settingsOf formats path value ≠ .error (.crash c) := by
  rw [settingsOf]
  cases formats.entries? value <;> simp

/-- Of a project file, only tools that are no table are not looked after. -/
theorem projectSettings_crash_iff {table : List (Text × α)} :
    projectSettings formats path table = .error (.crash c) ↔
      (∃ tools, Entries.find? "tool".toList table = some tools ∧ formats.entries? tools = none) ∧
        c = .toolsNotTable := by
  rw [projectSettings]
  cases Entries.find? "tool".toList table with
  | none => simp
  | some tools =>
    cases htools : formats.entries? tools with
    | none => simp [htools, eq_comm]
    | some entries =>
      simp only [Option.some.injEq, exists_eq_left', htools, reduceCtorEq, false_and, iff_false]
      cases Entries.find? projectSection.toList entries with
      | none =>
        intro h
        cases h
      | some given =>
        simp only
        split
        · intro h
          cases h
        · cases formats.entries? given <;> simp

theorem Format.settings_crash_iff {format : Format} {t : Text} :
    format.settings formats path t = .error (.crash c) ↔
      (format.IsTooLong formats t ∧ c = .numeralTooLong) ∨
        format = .project ∧ ∃ table, formats.toml t = .ok table ∧
          (∃ tools, Entries.find? "tool".toList table = some tools ∧
            formats.entries? tools = none) ∧ c = .toolsNotTable := by
  cases format with
  | project =>
    simp only [Format.settings, bind_mapError_ofReading_crash_iff, projectSettings_crash_iff,
      IsTooLong, true_and]
  | toml => simp [Format.settings, mapError_ofReading_crash_iff, IsTooLong]
  | yaml =>
    have hvalue (value : α) : (if formats.isNull value then return []
        else settingsOf formats path value) ≠ .error (.crash c) := by
      split
      · intro h
        cases h
      · exact settingsOf_ne_crash value
    simp [Format.settings, bind_mapError_ofReading_crash_iff, IsTooLong, hvalue]
  | json =>
    simp [Format.settings, bind_mapError_ofReading_crash_iff, IsTooLong, settingsOf_ne_crash]

theorem Format.load_crash_iff {format : Format} {bytes : ByteArray} :
    format.load formats path bytes = .error (.crash c) ↔ format.Stops formats bytes c := by
  rw [Format.load]
  constructor
  · intro h
    cases ht : format.text? bytes with
    | none =>
      rw [ht] at h
      cases h
      exact .notUtf8 ht
    | some t =>
      rw [ht] at h
      rcases Format.settings_crash_iff.mp h with
        ⟨hlong, rfl⟩ | ⟨rfl, table, htable, ⟨tools, htools, hnone⟩, rfl⟩
      · exact .numeralTooLong ht hlong
      · exact .toolsNotTable ht htable htools hnone
  · intro h
    cases h with
    | notUtf8 hnone => rw [hnone]
    | numeralTooLong ht hlong =>
      rw [ht]
      exact Format.settings_crash_iff.mpr (.inl ⟨hlong, rfl⟩)
    | toolsNotTable ht htable htools hnone =>
      rw [ht]
      exact Format.settings_crash_iff.mpr (.inr ⟨rfl, _, htable, ⟨_, htools, hnone⟩, rfl⟩)

/-- What there is at a path stops the program exactly if nobody can tell what it is or it is a file
of a known format whose bytes do. -/
theorem load_crash_iff {entry : PathContent} :
    load formats path entry = .error (.crash c) ↔
      (∃ fault, entry = .hidden fault ∧ c = .hidden fault) ∨
        ∃ bytes format, entry = .file bytes ∧ Format.ofPath? path = some format ∧
          format.Stops formats bytes c := by
  cases entry with
  | missing => simp [load]
  | directory => simp [load]
  | sealed =>
    rw [load.eq_def]
    cases Format.ofPath? path <;> simp
  | hidden fault => simp [load, eq_comm]
  | file bytes =>
    rw [load.eq_def]
    cases Format.ofPath? path with
    | none => simp
    | some format => simp [Format.load_crash_iff]

/-- What there is at a path is read or refused, unless nobody can tell what it is or it is a file of
a known format whose bytes stop the program. -/
theorem load_returns_or_refuses_iff (formats : Formats α) (path : Path) (entry : PathContent) :
    ((∃ settings, load formats path entry = .ok settings) ∨
      ∃ f, load formats path entry = .error (.refused f)) ↔
    (∀ fault, entry ≠ .hidden fault) ∧
      ¬∃ bytes format c, entry = .file bytes ∧ Format.ofPath? path = some format ∧
        format.Stops formats bytes c := by
  have hcrash : (∃ c, load formats path entry = .error (.crash c)) ↔
      (∃ fault, entry = .hidden fault) ∨
        ∃ bytes format c, entry = .file bytes ∧ Format.ofPath? path = some format ∧
          format.Stops formats bytes c := by
    simp only [load_crash_iff, exists_or]
    refine or_congr ?_ ?_
    · exact ⟨fun ⟨_, fault, h, _⟩ => ⟨fault, h⟩, fun ⟨fault, h⟩ => ⟨_, fault, h, rfl⟩⟩
    · exact ⟨fun ⟨c, bytes, format, h⟩ => ⟨bytes, format, c, h⟩,
        fun ⟨bytes, format, c, h⟩ => ⟨c, bytes, format, h⟩⟩
  rw [← not_exists, ← not_or, ← hcrash]
  cases load formats path entry with
  | ok settings => simp
  | error stop => cases stop <;> simp

/-- A file whose only byte begins no character. -/
theorem load_returns_or_refuses_strayByte :
    ¬((∃ settings, load .plain ⟨[], ["c.toml".toList]⟩ (.file ⟨#[255]⟩) = .ok settings) ∨
      ∃ f, load .plain ⟨[], ["c.toml".toList]⟩ (.file ⟨#[255]⟩) = .error (.refused f)) := by
  intro h
  obtain ⟨-, hnone⟩ := (load_returns_or_refuses_iff _ _ _).mp h
  exact hnone ⟨_, .toml, .notUtf8, rfl, rfl, .notUtf8 rfl⟩

/-! ## Discovery -/

/-- A project file that stops the program when it is loaded stops the search that comes to it, and
so does a path of which nobody can tell what is there. -/
theorem holdsSettings_crash_iff {entry : Path → PathContent} {p : Path} :
    holdsSettings formats entry p = .error c ↔
      (∃ fault, entry p = .hidden fault ∧ c = .hidden fault) ∨
        ∃ bytes, entry p = .file bytes ∧ Format.project.Stops formats bytes c := by
  rw [holdsSettings]
  cases entry p with
  | missing => simp
  | directory => simp
  | sealed => simp
  | hidden fault => simp [eq_comm]
  | file bytes =>
    have hload : Format.project.load formats p bytes = .error (.crash c) ↔ _ :=
      Format.load_crash_iff
    simp only [PathContent.file.injEq, exists_eq_left', ← hload, reduceCtorEq, false_and,
      exists_false, false_or]
    cases Format.load formats p .project bytes with
    | ok settings => simp
    | error stop => cases stop <;> simp

end Asciidoc.Config
