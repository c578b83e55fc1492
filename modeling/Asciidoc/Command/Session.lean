import Asciidoc.Files.Tree
import Asciidoc.Log
import Asciidoc.Text.Utf8

/-!
# Sessions

What a run of the command can see and change: the files, what is left of the standard input, and
what has been printed. Records are printed with the other errors, and in the same words added to
a log file if there is one, so that whoever reads that file as an input finds them there.
-/

namespace Asciidoc.Command

open Text

/-- The state of a run. -/
structure Session where
  /-- The files. -/
  files : FileTree
  /-- What is left of the standard input. -/
  input : Text
  /-- What was printed. -/
  out : Text := []
  /-- What was printed as errors. -/
  err : Text := []

/-- Prints a text. -/
def Session.print (s : Session) (t : Text) : Session := { s with out := s.out ++ t }

/-- Prints a line as an error. -/
def Session.complain (s : Session) (line : Text) : Session :=
  { s with err := s.err ++ line ++ ['\n'] }

/-! ## Reporting records -/

/-- How records are reported. -/
structure Reporting where
  /-- The level from which on records are shown. -/
  level : Log.Level
  /-- The time that records are shown with, if they are shown with it and with who speaks. -/
  stamp : Option Text
  /-- The names from the root of the log file. -/
  file : Option (List Text)
deriving DecidableEq, Repr

/-- Whether a record is shown. -/
def Reporting.shows (r : Reporting) (record : Log.Record) : Bool :=
  r.level.number ≤ record.level.number

/-- The line of a record. -/
def Reporting.line (r : Reporting) (record : Log.Record) : Text :=
  let level := record.level.name.toList
  match r.stamp with
  | none => "adocast: ".toList ++ level ++ [':', ' '] ++ record.message ++ ['\n']
  | some time =>
    let bracketed (t : Text) : Text := '[' :: t ++ [']', ' ']
    bracketed time ++ bracketed level ++ bracketed record.speaker.name.toList
      ++ record.message ++ ['\n']

/-- The lines of the records that are shown. -/
def Reporting.lines (r : Reporting) (records : List Log.Record) : Text :=
  (records.filter r.shows).flatMap r.line

/-- Adds a text to a log file, if there is one. -/
def Reporting.keep (r : Reporting) (t : Text) (files : FileTree) : FileTree :=
  match r.file with
  | none => files
  | some names => files.append names (String.ofList t).toUTF8

/-- Reports records. -/
def Session.report (s : Session) (r : Reporting) (records : List Log.Record) : Session :=
  let lines := r.lines records
  { s with err := s.err ++ lines, files := r.keep lines s.files }

/-- Starts to report: opens the log file, if a path for one is given, and reports how that went. -/
def Session.startReporting (s : Session) (level : Log.Level) (stamp : Option Text)
    (path : Text) : Reporting × Session :=
  if path.isEmpty then (⟨level, stamp, none⟩, s)
  else
    match s.files.opened (Path.ofText path) with
    | .ok names =>
      let r : Reporting := ⟨level, stamp, some names⟩
      (r, s.report r [⟨.info, .root, "Logging to file: ".toList ++ path⟩])
    | .error failure =>
      let r : Reporting := ⟨level, stamp, none⟩
      (r, s.report r [⟨.warning, .root, "Could not open log file ".toList ++ path ++ [':', ' ']
        ++ failure.message⟩])

/-! ## Reading inputs -/

/-- The path that stands for the standard input. -/
def standardInput : Text := ['-']

/-- Why an input cannot be read. -/
inductive InputFault where
  /-- There is nothing at its path. -/
  | missing
  /-- It is no file, or a file that nobody may open. -/
  | notOpened
  /-- It is not UTF-8. -/
  | notUtf8
deriving DecidableEq, Repr

/-- The wording of a fault of the input at a path. -/
def InputFault.message (path : Text) : InputFault → Text
  | .missing => "File not found: ".toList ++ path
  | .notOpened => "Cannot read file: ".toList ++ path
  | .notUtf8 => "File is not valid UTF-8 text: ".toList ++ path

/-- What keeps an input from being read. -/
inductive InputStop where
  /-- The input is left out. -/
  | refused (f : InputFault)
  /-- The program stops, as nobody can tell what there is at its path. -/
  | hidden (f : LookFault)
deriving DecidableEq, Repr

/-- The text of the file at a path. -/
def textAt (files : FileTree) (p : Path) : Except InputStop Text :=
  match files.entry p with
  | .missing => .error (.refused .missing)
  | .directory | .sealed => .error (.refused .notOpened)
  | .hidden fault => .error (.hidden fault)
  | .file bytes =>
    match Utf8.lines? bytes with
    | some t => .ok t
    | none => .error (.refused .notUtf8)

/-- The text of an input. The standard input is read to its end, so that nothing is left of it. -/
def Session.read (s : Session) (path : Text) : Except InputStop (Text × Session) :=
  if path = standardInput then .ok (s.input, { s with input := [] })
  else (textAt s.files (Path.ofText path)).map fun t => (t, s)

end Asciidoc.Command
