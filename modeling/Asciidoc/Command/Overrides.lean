import Asciidoc.Command.Arguments
import Asciidoc.Settings.OfTable

/-!
# Settings from a configuration and from arguments

The settings of a run start from those of a configuration. The arguments have names, and a flag that
is not given has none. A name that begins with that of a group of settings is for one of them. The
settings of the reader are changed first and put in their place, then those of the conversion; each
change is checked anew, as a whole.
-/

namespace Asciidoc

open Command

/-- What the names of the settings of a group begin with among those of arguments. -/
def Setting.Group.nameStart : Group → Text
  | .converter => "converter__".toList
  | .reader => "reader__".toList

/-- What flags say about the settings of a group. -/
def Flags.values (flags : Flags) : Setting.Group → List (Text × Json)
  | .converter =>
    (if flags.keepComments then [("skip_comments".toList, .bool false)] else [])
      ++ if flags.includeTableHeader then [("include_table_header".toList, .bool true)] else []
  | .reader =>
    (if flags.noAdmonitionStyles then [("parse_admonitions".toList, .bool false)] else [])
      ++ (if flags.noAdmonitionParagraphs then [("admonition_paragraphs".toList, .bool false)]
        else [])
      ++ (flags.headerDetection.map fun mode =>
        ("table_header_detection".toList, .ofString mode.name)).toList

namespace Command

/-- The arguments by name. -/
def Arguments.named (a : Arguments) : List (Text × Json) :=
  let flags (g : Setting.Group) : List (Text × Json) :=
    (a.flags.values g).map fun (name, value) => (g.nameStart ++ name, value)
  [("input".toList, .list (a.inputs.map .string)),
    ("format".toList, .ofString a.format.name),
    ("indent".toList, .int a.indent),
    ("config".toList, (a.config.map Json.string).getD .null),
    ("no_config".toList, .bool a.noConfig),
    ("log_level".toList, .ofString a.logLevel.name),
    ("log_file".toList, (a.logFile.map Json.string).getD .null),
    ("trace".toList, .bool a.trace)] ++ flags .converter ++ flags .reader

/-- The settings of a group among named arguments. -/
def overrides (g : Setting.Group) (named : List (Text × Json)) : List (Text × Json) :=
  named.filterMap fun (name, value) =>
    if g.nameStart.isPrefixOf name then some (name.drop g.nameStart.length, value) else none

/-- Why no settings come of a configuration and arguments. -/
inductive BuildFault where
  /-- The configuration is refused. -/
  | configuration (f : SettingsFault)
  /-- A change by the arguments is refused. -/
  | change (f : ChangeFault)

end Command

/-- The settings with those of the reader replaced. -/
def Settings.putReader (s : Settings) (reader : ReaderSettings) : Except ChangeFault Settings :=
  if !s.commentMarker.truthy then .error (.value .emptyMarker) else .ok { s with reader := reader }

/-- The settings with those of the reader changed, if there is something to change. -/
def Settings.overrideReader (s : Settings) (values : List (Text × Json)) :
    Except ChangeFault Settings :=
  if values.isEmpty then .ok s else (s.reader.change values).bind s.putReader

/-- The settings with those of the conversion changed, if there is something to change. -/
def Settings.override (s : Settings) (values : List (Text × Json)) : Except ChangeFault Settings :=
  if values.isEmpty then .ok s else s.change values

/-- The settings of a configuration and named arguments. -/
def Command.build (entries named : List (Text × Json)) : Except BuildFault Settings := do
  let s ← (Settings.ofTable entries).mapError .configuration
  let s ← (s.overrideReader (overrides .reader named)).mapError .change
  (s.override (overrides .converter named)).mapError .change

end Asciidoc
