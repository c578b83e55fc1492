import Asciidoc.Command.Run
import Std.Time.Format

/-!
# The command line program

Everything a run may ask for is read before it: the inputs, the places where a configuration may
be, and the log file. What the run prints and adds to files is put out after it.
-/

namespace Asciidoc.Command

open Text

/-- The bytes that a reading step gives, step after step, until it gives none. -/
partial def readToEnd (read : IO ByteArray) (known : ByteArray) : IO ByteArray := do
  let bytes ← read
  if bytes.isEmpty then return known else readToEnd read (known ++ bytes)

/-- A name that nothing has, as it is too long. -/
def unheardOf : String := String.ofList (List.replicate (FileTree.longestName + 1) 'a')

/-- What stands at a path that is no file to be read: a directory tells of a name that nothing has
that it is too long, unless it lets nobody through, and a file that it is no directory. -/
def unreadAt (path : String) : IO FileTree.Item := do
  match ← (IO.FS.Handle.mk (path ++ "/" ++ unheardOf) .read).toBaseIO with
  | .error (.permissionDenied ..) => return .closed
  | .error (.inappropriateType ..) => return .sealed
  | _ => return .directory

/-- What stands at a path, if something does. A directory opens like a file but cannot be read like
one. -/
def itemAt (path : String) : IO (Option FileTree.Item) := do
  match ← (IO.FS.Handle.mk path .read).toBaseIO with
  | .error (.permissionDenied ..) => return some (← unreadAt path)
  | .error _ => return none
  | .ok file =>
    match ← (readToEnd (file.read 65536) .empty).toBaseIO with
    | .ok bytes => return some (.file bytes)
    | .error _ => return some (← unreadAt path)

/-- The nodes of the paths that are there, seen from a directory. -/
def nodesAt (directory : List Text) (paths : List Path) :
    IO (List (List Text × FileTree.Item)) := do
  let mut nodes := []
  for p in paths do
    if let some item ← itemAt (String.ofList p.shown) then
      let start := if p.anchor.isEmpty then directory else []
      nodes := nodes ++ [(FileTree.spelledOut start p.parts, item)]
  return nodes

/-- The paths at which a configuration may be found, and the directories they are in. -/
def configurationPlaces (here home : Path) : List Path :=
  let names := Config.dedicatedNames ++ [Config.projectName]
  here.upToRoot ++ home.upToRoot
    ++ (here.upToRoot ++ [home]).flatMap fun directory => names.map directory.child

/-- The standard input, if an input stands for it. -/
def readInput (inputs : List Text) : IO Text := do
  if inputs.contains standardInput then
    let stream ← IO.getStdin
    let bytes ← readToEnd (stream.read 65536) .empty
    match Utf8.lines? bytes with
    | some t => return t
    | none => throw (IO.userError "the standard input is not valid UTF-8 text")
  else return []

/-- What a run with arguments finds around it. -/
def Surroundings.find (words : List Text) : IO Surroundings := do
  let here := Path.ofText (← IO.currentDir).toString.toList
  let home := Path.ofText ((← IO.getEnv "HOME").getD "/").toList
  let named? := (← IO.getEnv "ADOCAST_CONFIG").map String.toList
  let given := (Arguments.parse words).toOption.getD {}
  let named := given.inputs ++ given.config.toList ++ given.logFile.toList ++ named?.toList
  let paths := (named.map Path.ofText).flatMap Path.upToRoot ++ configurationPlaces here home
  let nodes ← nodesAt here.parts paths
  return {
    formats := .plain
    files := ⟨['/'], here.parts, nodes⟩
    home := home
    configuration := named?
    input := ← readInput given.inputs
    time := ((← Std.Time.PlainDateTime.now).format "uuuu-MM-dd HH:mm:ss").toList }

/-- The code a run ends with; one for a run that ends at once. -/
def Ending.exitCode : Ending → UInt32
  | .code n => UInt32.ofNat n
  | .crash _ => 1

/-- The message about a run that ends at once. -/
def Crash.message : Crash → String
  | .configuration (.hidden fault) | .input fault => fault.message
  | .configuration .notUtf8 => "the configuration file is not valid UTF-8 text"
  | .configuration .numeralTooLong => "a number in the configuration file is too long"
  | .configuration .toolsNotTable => "the tools of the project file are no table"
  | .document .numeralTooLong => "a number of columns is too long"
  | .document .positionalText => "positional attributes are set to a text"
  | .document .markerNotText => "the comment marker is not a text"

/-- Puts out what a run printed and added to files. -/
def Outcome.putOut (o : Outcome) (earlier : FileTree) : IO Unit := do
  for (names, bytes) in o.session.files.added earlier do
    let path := String.ofList (Path.shown ⟨['/'], names⟩)
    let file ← IO.FS.Handle.mk path .append
    file.write bytes
  (← IO.getStdout).putStr (String.ofList o.session.out)
  (← IO.getStderr).putStr (String.ofList o.session.err)
  match o.ending with
  | .crash c => (← IO.getStderr).putStrLn s!"adocast: error: {c.message}"
  | .code _ => return ()

end Asciidoc.Command

/-- Runs the command and ends with its code. -/
def main (args : List String) : IO UInt32 := do
  let words := args.map String.toList
  let around ← Asciidoc.Command.Surroundings.find words
  let outcome := Asciidoc.Command.run around words
  outcome.putOut around.files
  return outcome.ending.exitCode
