import Asciidoc.Settings.Basic

/-!
# Settings of a configuration

A configuration is a table of settings. Keys may be spelled with dashes or underscores, and the
last of two spellings of a key wins. The settings of the reader stand in a table of their own
under `reader`; a null there counts as an empty table.

The checks come in a fixed order: the keys and switches of the conversion as they stand, then
that `reader` holds a table, then its keys and switches, then the header detection, and last the
comment marker. Switches have to be truth values. The comment marker only has to be something
that is not empty.

What a switch is set to instead of a truth value is quoted, so the refusal fails itself when the
value cannot be quoted (`SettingsFault.isTold`).
-/

namespace Asciidoc

/-- Why a configuration is refused. -/
inductive SettingsFault where
  /-- There is no such setting in a group. -/
  | unknown (group : Setting.Group) (key : Text)
  /-- A switch is set to something that is no truth value. -/
  | notSwitch (key : Text) (given : Json)
  /-- The settings of the reader are no table. -/
  | readerNotTable (given : Json)
  /-- A value is refused. -/
  | value (cause : ValueFault)

/-- The wording of a refusal. -/
def SettingsFault.message : SettingsFault → Text
  | .unknown group key =>
    "Unknown ".toList ++ group.name.toList ++ " setting '".toList ++ key
      ++ "'. Expected one of: ".toList
      ++ Text.join [',', ' '] (group.sortedNames.map (·.toList))
  | .notSwitch key given =>
    "Setting '".toList ++ key ++ "' must be true or false, got ".toList ++ given.shown
  | .readerNotTable given => "'reader' must be a table, got ".toList ++ given.typeName.toList
  | .value cause => "Invalid configuration: ".toList ++ cause.message

/-- Whether a refusal can be put into words. One that cannot stops the program. -/
def SettingsFault.isTold : SettingsFault → Bool
  | .notSwitch _ given => given.isQuotable
  | _ => true

/-- A key with underscores for dashes. -/
def Setting.spelling (key : Text) : Text := key.map fun c => if c = '-' then '_' else c

/-- The values of the settings of a group, on top of those known. -/
def Setting.Group.collect (g : Group) (known : List (Text × Json)) :
    List (Text × Json) → Except SettingsFault (List (Text × Json))
  | [] => .ok known
  | (key, given) :: rest =>
    match g.find? (Setting.spelling key) with
    | none => .error (.unknown g key)
    | some setting =>
      if setting.isSwitch && given.bool?.isNone then .error (.notSwitch key given)
      else g.collect (Entries.put (Setting.spelling key) given known) rest

/-- The table of settings of the reader that a value is. -/
def Settings.readerTable : Option Json → Except SettingsFault (List (Text × Json))
  | none | some .null => .ok []
  | some (.table entries) => .ok entries
  | some given => .error (.readerNotTable given)

/-- The settings of a configuration. -/
def Settings.ofTable (entries : List (Text × Json)) : Except SettingsFault Settings := do
  let values ← Setting.Group.converter.collect [] entries
  let table ← readerTable (Entries.find? "reader".toList values)
  let readerValues ← Setting.Group.reader.collect [] table
  let reader ← (({} : ReaderSettings).put readerValues).mapError .value
  let settings ← (({} : Settings).put (Entries.erase "reader".toList values)).mapError .value
  return { settings with reader := reader }

end Asciidoc
