import Asciidoc.Command.Arguments
import Asciidoc.Command.Session
import Asciidoc.Config.File
import Asciidoc.Conversion
import Asciidoc.Node.Interchange
import Asciidoc.Node.Label

/-!
# Runs of the command

A run takes in its arguments, then its configuration, and then converts its inputs one after the
other. Drawings are printed as they come; documents in the interchange format are printed
together at the end. An input that cannot be read is complained about and left out, and makes the
run end with a code of its own. What nobody foresaw, such as an input of which nobody can tell what
it is or a document that cannot be read, ends the run at once.
-/

namespace Asciidoc.Command

open Text

/-- What a run finds around it. -/
structure Surroundings where
  /-- The readers of the formats of configuration files. -/
  formats : Config.Formats Json
  /-- The files. -/
  files : FileTree
  /-- The home directory. -/
  home : Path
  /-- The path of the configuration file in the environment. -/
  configuration : Option Text
  /-- The standard input. -/
  input : Text
  /-- The time. -/
  time : Text

/-- What ends a run at once. -/
inductive Crash where
  /-- The configuration. -/
  | configuration (c : ConfigCrash)
  /-- An input of which nobody can tell what it is. -/
  | input (f : LookFault)
  /-- A document that cannot be read. -/
  | document (f : Fault)
deriving DecidableEq, Repr

/-- How a run ends. -/
inductive Ending where
  /-- With a code. -/
  | code (n : Nat)
  /-- At once. -/
  | crash (c : Crash)
deriving DecidableEq, Repr

/-- What comes of a run. -/
structure Outcome where
  /-- How it ends. -/
  ending : Ending
  /-- What it leaves. -/
  session : Session

/-- The version of the command. -/
def version : Text := "1.0.0".toList

/-- The code of a run that went well. -/
def exitSuccess : Nat := 0

/-- The code of a run with an input whose conversion is refused. -/
def exitConversion : Nat := 1

/-- The code of a run whose arguments are refused. -/
def exitArguments : Nat := 2

/-- The code of a run whose configuration is refused. -/
def exitConfiguration : Nat := 3

/-- The code of a run with an input that cannot be read. -/
def exitInput : Nat := 4

/-! ## Configuration -/

/-- The configuration file of a run as it is shown, with its path; none if there is none. -/
def configuration? (around : Surroundings) (files : FileTree) (a : Arguments) :
    Except ConfigCrash (Option (Text × Path)) :=
  let named (t : Option Text) : Option Text := t.filter fun t => !t.isEmpty
  if a.noConfig then .ok none
  else
    match named a.config <|> named around.configuration with
    | some t => .ok (some (t, Path.ofText t))
    | none =>
      (Config.discover around.formats files.entry files.here around.home).map fun found =>
        found.map fun p => (p.shown, p)

/-- The settings of a configuration file; those that hold anyway if there is none. -/
def configured (formats : Config.Formats Json) (files : FileTree) :
    Option Path → Except ConfigStop Settings
  | none => .ok {}
  | some p => do
    let entries ← Config.load formats p (files.entry p)
    (Settings.ofTable entries).mapError .ofSettings

/-- The settings of a run, with what finding them reported. -/
def settings (around : Surroundings) (r : Reporting) (a : Arguments) (s : Session) :
    Except ConfigStop Settings × Session :=
  match configuration? around s.files a with
  | .error crash => (.error (.crash crash), s)
  | .ok found =>
    let s := s.report r (found.map fun (shown, _) =>
      ⟨.debug, .commandLine, "Loading configuration from ".toList ++ shown⟩).toList
    ((configured around.formats s.files (found.map (·.2))).map (·.withFlags a.flags), s)

/-! ## Inputs -/

/-- The path of an input as it is shown. -/
def shownInput (path : Text) : Text :=
  if path = standardInput then "<stdin>".toList else path

/-- A run in the midst of its inputs. -/
structure Progressing where
  /-- What has been printed and reported. -/
  session : Session
  /-- The code the run will end with. -/
  code : Nat := exitSuccess
  /-- The documents to be printed at the end. -/
  documents : List (Text × Node Text) := []

/-- Converts the inputs. -/
def convertAll (rules : Rules) (r : Reporting) (format : Format) (p : Progressing) :
    List Text → Except Crash Progressing × Session
  | [] => (.ok p, p.session)
  | path :: rest =>
    match p.session.read path with
    | .error (.hidden fault) => (.error (.input fault), p.session)
    | .error (.refused fault) =>
      let s := p.session.complain ("Error: ".toList ++ fault.message path)
      convertAll rules r format { p with session := s, code := exitInput } rest
    | .ok (t, s) =>
      let converted := Conversion.ofText rules t
      let s := s.report r converted.log
      match converted.result with
      | .error (.fault fault) => (.error (.document fault), s)
      | .error (.notSettings typeName) =>
        let s := s.report r [⟨.error, .commandLine, "Failed to convert ".toList ++ path
          ++ [':', ' '] ++ ((Refusal.notSettings typeName).message?).getD []⟩]
        convertAll rules r format { p with session := s, code := exitConversion } rest
      | .ok root =>
        match format with
        | .drawing =>
          let s := s.print (root.drawing (shownInput path))
          convertAll rules r format { p with session := s } rest
        | .interchange =>
          convertAll rules r format
            { p with session := s, documents := p.documents ++ [(shownInput path, root)] } rest

/-- Prints the documents in the interchange format, if there are any. -/
def Session.printDocuments (s : Session) (indent : Int) (documents : List (Text × Node Text)) :
    Session :=
  if documents.isEmpty then s
  else s.print (Node.writtenFiles (if 0 < indent then some indent else none) documents)

/-! ## Runs -/

/-- Goes through a run whose arguments are taken in. -/
def Arguments.run (a : Arguments) (around : Surroundings) : Outcome :=
  let level := if a.trace then .debug else a.logLevel
  let stamp := if a.trace then some around.time else none
  let (r, s) := Session.startReporting ⟨around.files, around.input, [], []⟩ level stamp
    (a.logFile.getD [])
  match Command.settings around r a s with
  | (.error (.crash c), s) => ⟨.crash (.configuration c), s⟩
  | (.error (.refused fault), s) =>
    ⟨.code exitConfiguration, s.complain ("Error: ".toList ++ fault.message)⟩
  | (.ok settings, s) =>
    match convertAll settings.rules r a.format { session := s } a.inputs with
    | (.error crash, s) => ⟨.crash crash, s⟩
    | (.ok p, s) => ⟨.code p.code, s.printDocuments a.indent p.documents⟩

/-- A reminder of how the command is called. -/
def usage : Text := "usage: adocast [options] input [input ...]".toList

/-- Goes through a run of the command. -/
def run (around : Surroundings) (words : List Text) : Outcome :=
  let s : Session := ⟨around.files, around.input, [], []⟩
  match Arguments.parse words with
  | .ok a => a.run around
  | .error .version =>
    ⟨.code exitSuccess, s.print ("adocast ".toList ++ version ++ ['\n'])⟩
  | .error .help => ⟨.code exitSuccess, s.print (usage ++ ['\n'])⟩
  | .error (.refused message) =>
    ⟨.code exitArguments, s.complain ("adocast: error: ".toList ++ message)⟩

end Asciidoc.Command
