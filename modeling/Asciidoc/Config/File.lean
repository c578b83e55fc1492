import Asciidoc.Config.Yaml
import Asciidoc.Files.Tree
import Asciidoc.Settings.OfTable
import Asciidoc.Text.Case
import Asciidoc.Text.Utf8

/-!
# Configuration files

A configuration file is named on the command line or found: from a directory upward, the
dedicated names in their order and then a project file that has a section for the settings, and
at last the dedicated names in the home directory. A project file that cannot be used does not
stop the search.

The format of a file is told by its name. What a text in a format holds is told by readers of the
formats, and their values may be of any kind: all that is asked of a value is whether it is null or
a table and what its type is called. `Formats.plain` are the readers of this library.

Most that can be wrong with a file refuses the configuration; what the checks do not foresee stops
the program: a path of which nobody can tell what is there, bytes that are no UTF-8, a numeral that
is too long, and a project file whose tools are no table.
-/

namespace Asciidoc

open Text

/-- Why a configuration is refused. -/
inductive ConfigFault where
  /-- There is no such file. -/
  | noSuchFile (path : Path)
  /-- The format is none of those known. -/
  | unknownFormat (suffix : Text)
  /-- The file cannot be opened. -/
  | notOpened (path : Path) (fault : LookFault)
  /-- The project file cannot be opened. -/
  | projectNotOpened (path : Path) (fault : LookFault)
  /-- The text is not in its format. -/
  | malformed (path : Path)
  /-- The text of a project file is not in its format. -/
  | malformedProject (path : Path)
  /-- The section of a project file is no table. -/
  | sectionNotTable (path : Path) (typeName : String)
  /-- The file holds something other than a table. -/
  | notTable (path : Path) (typeName : String)
  /-- The settings are refused. -/
  | settings (cause : SettingsFault)

/-- The section of a project file that holds the settings. -/
def Config.projectSection : String := "adocast"

/-- The wording of a refusal to open a file. -/
def LookFault.told (fault : LookFault) (path : Path) : Text :=
  path.shown ++ [':', ' '] ++ fault.message.toList ++ [':', ' '] ++ Quoted.encode path.shown

/-- The wording of a refusal. What is wrong with the format of a text is not told. -/
def ConfigFault.message : ConfigFault → Text
  | .noSuchFile path => "Configuration file does not exist: ".toList ++ path.shown
  | .unknownFormat suffix =>
    "Unsupported config file format: ".toList ++ suffix ++ ". Use .toml, .yaml or .json".toList
  | .notOpened path fault => "Error reading config file ".toList ++ fault.told path
  | .projectNotOpened path fault => "Error reading ".toList ++ fault.told path
  | .malformed path => "Invalid config file ".toList ++ path.shown
  | .malformedProject path => "Invalid TOML in ".toList ++ path.shown
  | .sectionNotTable path typeName =>
    "[tool.".toList ++ Config.projectSection.toList ++ "] in ".toList ++ path.shown
      ++ " must be a table, got ".toList ++ typeName.toList
  | .notTable path typeName =>
    "Config file ".toList ++ path.shown ++ " must contain a table or mapping, got ".toList
      ++ typeName.toList
  | .settings cause => cause.message

/-- What stops the program instead of refusing the configuration. -/
inductive ConfigCrash where
  /-- Nobody can tell what there is at a path. -/
  | hidden (fault : LookFault)
  /-- The bytes of a file are no UTF-8. -/
  | notUtf8
  /-- A numeral is too long to read, or a number too long to write. -/
  | numeralTooLong
  /-- The tools of a project file are no table. -/
  | toolsNotTable
deriving DecidableEq, Repr

/-- What keeps a configuration from being read. -/
inductive ConfigStop where
  /-- The configuration is refused. -/
  | refused (f : ConfigFault)
  /-- The program stops. -/
  | crash (c : ConfigCrash)

/-- What a text that cannot be read in its format comes to, if a malformed one is refused. -/
def ConfigStop.ofReading (malformed : ConfigFault) : Json.ReadFault → ConfigStop
  | .malformed => .refused malformed
  | .tooLong => .crash .numeralTooLong

/-- What refused settings come to. -/
def ConfigStop.ofSettings (f : SettingsFault) : ConfigStop :=
  if f.isTold then .refused (.settings f) else .crash .numeralTooLong

namespace Config

/-! ## Formats -/

/-- A format of configuration files. -/
inductive Format where
  | project
  | toml
  | yaml
  | json
deriving DecidableEq, Repr

/-- The readers of the formats, with what is asked of the values they give. -/
structure Formats (α : Type) where
  /-- The table in a text, for files in this format and for project files. -/
  toml : Text → Except Json.ReadFault (List (Text × α))
  /-- The value in a text. -/
  yaml : Text → Except Json.ReadFault α
  /-- The value in a text. -/
  json : Text → Except Json.ReadFault α
  /-- Whether a value is null. -/
  isNull : α → Bool
  /-- The entries of a value that is a table. -/
  entries? : α → Option (List (Text × α))
  /-- The name of a value's type. -/
  typeName : α → String

/-- The readers of this library. Settings are told from characters, so a surrogate in a text is
taken for the escape it is written as. -/
def Formats.plain : Formats Json where
  toml := Toml.read
  yaml := Yaml.read
  json t := (Json.read t).map Json.displayed
  isNull value := value matches .null
  entries? := Json.entries?
  typeName := Json.typeName

/-- The dedicated names of configuration files, in the order in which they are looked for. -/
def dedicatedNames : List Text :=
  [".adocast.toml", ".adocast.yaml", ".adocast.yml", ".adocast.json"].map (·.toList)

/-- The name of project files. -/
def projectName : Text := "pyproject.toml".toList

/-- The format of a file, by the end of its name. -/
def Format.ofSuffix? (suffix : Text) : Option Format :=
  if suffix = ".toml".toList then some .toml
  else if suffix = ".yaml".toList || suffix = ".yml".toList then some .yaml
  else if suffix = ".json".toList then some .json
  else none

/-- The format of the file at a path. -/
def Format.ofPath? (path : Path) : Option Format :=
  if Case.lower path.name = projectName then some .project
  else ofSuffix? (Case.lower path.suffix)

/-- The text in the bytes of a file; line ends are kept in the format that has its own. -/
def Format.text? : Format → ByteArray → Option Text
  | .project | .toml => Utf8.decode?
  | .yaml | .json => Utf8.lines?

/-! ## Loading -/

section Loading

variable {α : Type} (formats : Formats α) (path : Path)

/-- The settings in the table of a project file; none if it has no section for them. -/
def projectSettings (table : List (Text × α)) : Except ConfigStop (List (Text × α)) :=
  match Entries.find? "tool".toList table with
  | none => .ok []
  | some tools =>
    match formats.entries? tools with
    | none => .error (.crash .toolsNotTable)
    | some tools =>
      match Entries.find? projectSection.toList tools with
      | none => .ok []
      | some given =>
        if formats.isNull given then .ok []
        else
          match formats.entries? given with
          | some settings => .ok settings
          | none => .error (.refused (.sectionNotTable path (formats.typeName given)))

/-- The settings that a value is. -/
def settingsOf (value : α) : Except ConfigStop (List (Text × α)) :=
  match formats.entries? value with
  | some settings => .ok settings
  | none => .error (.refused (.notTable path (formats.typeName value)))

/-- The settings in a text in a format. An empty text is an empty table in a format in which it is
null. -/
def Format.settings (format : Format) (t : Text) : Except ConfigStop (List (Text × α)) :=
  match format with
  | .project => do
    let table ← (formats.toml t).mapError (.ofReading (.malformedProject path))
    projectSettings formats path table
  | .toml => (formats.toml t).mapError (.ofReading (.malformed path))
  | .yaml => do
    let value ← (formats.yaml t).mapError (.ofReading (.malformed path))
    if formats.isNull value then return [] else settingsOf formats path value
  | .json => do
    let value ← (formats.json t).mapError (.ofReading (.malformed path))
    settingsOf formats path value

/-- The settings in the bytes of a file in a format. -/
def Format.load (format : Format) (bytes : ByteArray) : Except ConfigStop (List (Text × α)) :=
  match format.text? bytes with
  | none => .error (.crash .notUtf8)
  | some t => format.settings formats path t

/-- A file in a format that cannot be opened. -/
def Format.notOpened (format : Format) (fault : LookFault) : ConfigFault :=
  if format = .project then .projectNotOpened path fault else .notOpened path fault

/-- The table of settings in what there is at a path. -/
def load (entry : PathContent) : Except ConfigStop (List (Text × α)) :=
  match entry, Format.ofPath? path with
  | .missing, _ | .directory, _ => .error (.refused (.noSuchFile path))
  | .hidden fault, _ => .error (.crash (.hidden fault))
  | .sealed, none | .file _, none =>
    .error (.refused (.unknownFormat (Case.lower path.suffix)))
  | .sealed, some format => .error (.refused (format.notOpened path .noPermission))
  | .file bytes, some format => format.load formats path bytes

end Loading

/-! ## Discovery -/

section Discovery

variable {α : Type} (formats : Formats α) (entry : Path → PathContent)

/-- Whether there is a file at a path. -/
def isFile (p : Path) : Except ConfigCrash Bool :=
  match entry p with
  | .hidden fault => .error (.hidden fault)
  | content => .ok content.isFile

/-- The first file of a dedicated name in a directory. -/
def dedicated? (directory : Path) : Except ConfigCrash (Option Path) :=
  (dedicatedNames.map directory.child).findM? (isFile entry)

/-- Whether there is a project file at a path with settings in it. -/
def holdsSettings (p : Path) : Except ConfigCrash Bool :=
  match entry p with
  | .hidden fault => .error (.hidden fault)
  | .file bytes =>
    match Format.project.load formats p bytes with
    | .ok settings => .ok (!settings.isEmpty)
    | .error (.refused _) => .ok false
    | .error (.crash c) => .error c
  | _ => .ok false

/-- The configuration file found in the first of some directories that has one. -/
def findIn : List Path → Except ConfigCrash (Option Path)
  | [] => .ok none
  | directory :: rest => do
    match ← dedicated? entry directory with
    | some found => return some found
    | none =>
      let project := directory.child projectName
      if ← holdsSettings formats entry project then return some project else findIn rest

/-- The configuration file found from a directory upward, or else in the home directory. -/
def discover (directory home : Path) : Except ConfigCrash (Option Path) := do
  match ← findIn formats entry directory.upToRoot with
  | some found => return some found
  | none => dedicated? entry home

end Discovery

end Config

end Asciidoc
