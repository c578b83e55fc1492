import Asciidoc.Json.Basic
import Asciidoc.Rules

/-!
# Settings

What a configuration may say about reading and locating. Settings come in two groups: those of
the conversion, and nested in them those of the block reader. A header detection is always one
of the three there are. The other settings keep the value they were given, since a host may set
them without going through a configuration file; `Settings.rules` is what the values amount to.

A change of settings is checked as a whole. Changing a setting that does not exist, an empty
comment marker and reader settings that are none are refused, in this order, and the settings
stay what they were.
-/

namespace Asciidoc

/-- One setting of a group. -/
structure Setting where
  /-- Its name. -/
  name : String
  /-- The command line flag that sets it, if there is one. -/
  flag : Option String
  /-- Whether it is on or off. -/
  isSwitch : Bool
deriving DecidableEq, Repr

/-- A group of settings. -/
inductive Setting.Group where
  | converter
  | reader
deriving DecidableEq, Repr

namespace Setting.Group

/-- The name of a group. -/
def name : Group → String
  | .converter => "ConverterOptions"
  | .reader => "ReaderOptions"

/-- The settings of a group, in the order in which they are declared. -/
def settings : Group → List Setting
  | .converter => [
      ⟨"skip_comments", some "no-skip-comments", true⟩,
      ⟨"comment_marker", none, false⟩,
      ⟨"include_table_header", some "include-table-header", true⟩,
      ⟨"reader", none, false⟩]
  | .reader => [
      ⟨"parse_admonitions", some "no-parse-admonitions", true⟩,
      ⟨"admonition_paragraphs", some "no-admonition-paragraphs", true⟩,
      ⟨"table_header_detection", some "table-header-detection", false⟩]

/-- The names of the settings of a group, in alphabetic order. -/
def sortedNames (g : Group) : List String :=
  (g.settings.map (·.name)).mergeSort fun a b => a ≤ b

/-- The setting of a name. -/
def find? (g : Group) (key : Text) : Option Setting :=
  g.settings.find? fun s => s.name.toList == key

end Setting.Group

/-- Why a value is refused. -/
inductive ValueFault where
  /-- A header detection that is none of those there are. -/
  | headerDetection (given : Json)
  /-- An empty comment marker. -/
  | emptyMarker
  /-- Something else in place of the settings of the reader. -/
  | notReaderSettings (given : Json)

/-- The wording of a refusal. The refusal to write the value takes its place if the value cannot
be quoted. -/
def ValueFault.message : ValueFault → Text
  | .headerDetection given =>
    let modes := HeaderDetection.all.map fun mode => Text.Quoted.encode mode.name.toList
    if given.isQuotable then
      "table_header_detection must be one of (".toList ++ Text.join [',', ' '] modes
        ++ "), got ".toList ++ given.shown
    else Text.Decimal.tooLongMessage
  | .emptyMarker => "comment_marker must be a non-empty string".toList
  | .notReaderSettings given => "reader must be ReaderOptions, got ".toList ++ given.typeName.toList

/-- Why a change of settings is refused. -/
inductive ChangeFault where
  /-- There is no such setting. -/
  | unknown
  /-- A value is refused. -/
  | value (cause : ValueFault)

/-- The settings of the block reader. -/
structure ReaderSettings where
  /-- Whether styles make admonitions. -/
  parseAdmonitions : Json := .bool true
  /-- Whether paragraphs with a label are admonitions. -/
  admonitionParagraphs : Json := .bool true
  /-- How header rows are recognised. -/
  tableHeaderDetection : HeaderDetection := .implicit

/-- All settings. -/
structure Settings where
  /-- Whether comment lines are stepped over. -/
  skipComments : Json := .bool true
  /-- What comment lines start with. -/
  commentMarker : Json := .string Marker.slashes
  /-- Whether header rows are converted. -/
  includeTableHeader : Json := .bool false
  /-- The settings of the block reader. -/
  reader : ReaderSettings := {}

/-- The settings with the given values in place of those they had. -/
def ReaderSettings.put (s : ReaderSettings) (values : List (Text × Json)) :
    Except ValueFault ReaderSettings :=
  let changed : ReaderSettings := { s with
    parseAdmonitions := (Entries.find? "parse_admonitions".toList values).getD s.parseAdmonitions
    admonitionParagraphs :=
      (Entries.find? "admonition_paragraphs".toList values).getD s.admonitionParagraphs }
  match Entries.find? "table_header_detection".toList values with
  | none => .ok changed
  | some given =>
    match given.text?.bind HeaderDetection.ofName? with
    | some mode => .ok { changed with tableHeaderDetection := mode }
    | none => .error (.headerDetection given)

/-- The settings with the given values in place of those they had; no value is settings of the
reader. -/
def Settings.put (s : Settings) (values : List (Text × Json)) : Except ValueFault Settings :=
  let marker := (Entries.find? "comment_marker".toList values).getD s.commentMarker
  if !marker.truthy then .error .emptyMarker
  else
    match Entries.find? "reader".toList values with
    | some given => .error (.notReaderSettings given)
    | none =>
      .ok { s with
        skipComments := (Entries.find? "skip_comments".toList values).getD s.skipComments
        commentMarker := marker
        includeTableHeader :=
          (Entries.find? "include_table_header".toList values).getD s.includeTableHeader }

/-- Makes a change if all it names is a setting of a group. -/
def Setting.Group.change {α : Type} (g : Group)
    (put : List (Text × Json) → Except ValueFault α) (values : List (Text × Json)) :
    Except ChangeFault α :=
  if values.all fun (key, _) => (g.find? key).isSome then (put values).mapError .value
  else .error .unknown

/-- Changes settings of the reader. -/
def ReaderSettings.change (s : ReaderSettings) (values : List (Text × Json)) :
    Except ChangeFault ReaderSettings := Setting.Group.reader.change s.put values

/-- Changes settings of the conversion. -/
def Settings.change (s : Settings) (values : List (Text × Json)) : Except ChangeFault Settings :=
  Setting.Group.converter.change s.put values

/-- What settings of the reader amount to. -/
def ReaderSettings.rules (s : ReaderSettings) : Rules.Reading where
  admonitionStyles := s.parseAdmonitions.truthy
  admonitionParagraphs := s.admonitionParagraphs.truthy
  headerDetection := s.tableHeaderDetection

/-- What settings amount to. -/
def Settings.rules (s : Settings) : Rules where
  skipComments := s.skipComments.truthy
  marker :=
    match s.commentMarker with
    | .string t => .text t
    | _ => .unusable
  includeTableHeader := s.includeTableHeader.truthy
  reading := s.reader.rules

/-- Settings given on a command line, over those of a configuration. -/
structure Flags where
  /-- Comment lines are not stepped over. -/
  keepComments : Bool := false
  /-- Header rows are converted. -/
  includeTableHeader : Bool := false
  /-- Styles make no admonitions. -/
  noAdmonitionStyles : Bool := false
  /-- Labels make no admonitions. -/
  noAdmonitionParagraphs : Bool := false
  /-- How header rows are recognised, if given. -/
  headerDetection : Option HeaderDetection := none
deriving DecidableEq, Repr

/-- Settings with flags over them. -/
def Settings.withFlags (s : Settings) (flags : Flags) : Settings where
  skipComments := if flags.keepComments then .bool false else s.skipComments
  commentMarker := s.commentMarker
  includeTableHeader := if flags.includeTableHeader then .bool true else s.includeTableHeader
  reader := {
    parseAdmonitions := if flags.noAdmonitionStyles then .bool false else s.reader.parseAdmonitions
    admonitionParagraphs :=
      if flags.noAdmonitionParagraphs then .bool false else s.reader.admonitionParagraphs
    tableHeaderDetection := flags.headerDetection.getD s.reader.tableHeaderDetection }

end Asciidoc
