import Asciidoc.Log
import Asciidoc.Settings.Basic
import Asciidoc.Text.Numeral

/-!
# Command line arguments

The words of a command line are options, values of options and inputs. An option may be
shortened to the start of its spelling if only one option starts so, and its value may follow
behind an equals sign or as the next word. Words that look like negative numbers or hold a blank
are no options, and after two dashes no word is. The inputs are the first run of words that are
neither options nor values; further runs are not recognized.

All words are told apart before any of them has an effect, so an ambiguous one is refused even
behind an option that ends the program.
-/

namespace Asciidoc.Command

open Text

/-- What is printed for a document. -/
inductive Format where
  | interchange
  | drawing
deriving DecidableEq, Repr

/-- The word for a format. -/
def Format.name : Format → String
  | .interchange => "json"
  | .drawing => "tree"

/-- The formats. -/
def Format.all : List Format := [.interchange, .drawing]

/-- An option. -/
inductive Switch where
  | help
  | version
  | format
  | indent
  | config
  | noConfig
  | keepComments
  | includeTableHeader
  | noAdmonitionStyles
  | noAdmonitionParagraphs
  | headerDetection
  | logLevel
  | logFile
  | trace
deriving DecidableEq, Repr

/-- The spellings of the options, in the order in which they are listed to a user. -/
def Switch.spellings : List (Text × Switch) := [
  ("-h".toList, .help), ("--help".toList, .help), ("--version".toList, .version),
  ("--format".toList, .format), ("--indent".toList, .indent), ("--config".toList, .config),
  ("--no-config".toList, .noConfig), ("--no-skip-comments".toList, .keepComments),
  ("--include-table-header".toList, .includeTableHeader),
  ("--no-parse-admonitions".toList, .noAdmonitionStyles),
  ("--no-admonition-paragraphs".toList, .noAdmonitionParagraphs),
  ("--table-header-detection".toList, .headerDetection), ("--log-level".toList, .logLevel),
  ("--log-file".toList, .logFile), ("--trace".toList, .trace)]

/-- Whether an option has a value. -/
def Switch.takesValue : Switch → Bool
  | .format | .indent | .config | .headerDetection | .logLevel | .logFile => true
  | _ => false

/-- An option as messages name it: by all its spellings. -/
def Switch.label (s : Switch) : Text :=
  join ['/'] ((spellings.filter fun entry => entry.2 = s).map (·.1))

/-- What ends the program before it does anything. -/
inductive Stop where
  /-- The arguments are refused. -/
  | refused (message : Text)
  /-- The version is asked for. -/
  | version
  /-- Help is asked for. -/
  | help
deriving DecidableEq, Repr

/-- An argument of an option is refused. -/
def Stop.argument (s : Switch) (message : Text) : Stop :=
  .refused ("argument ".toList ++ s.label ++ [':', ' '] ++ message)

/-- The arguments. -/
structure Arguments where
  /-- The paths of the inputs. -/
  inputs : List Text := []
  /-- What is printed. -/
  format : Format := .interchange
  /-- The indentation. -/
  indent : Int := 2
  /-- The path of the configuration file. -/
  config : Option Text := none
  /-- Whether configuration files are left alone. -/
  noConfig : Bool := false
  /-- The settings given as options. -/
  flags : Flags := {}
  /-- The level from which on records are shown. -/
  logLevel : Log.Level := .warning
  /-- The path of a file that records go to too. -/
  logFile : Option Text := none
  /-- Whether all records are shown, with their time and speaker. -/
  trace : Bool := false
deriving DecidableEq, Repr

/-! ## Telling words apart -/

/-- What a word is. -/
inductive Word where
  /-- No option. -/
  | plain
  /-- The two dashes after which no word is an option. -/
  | dashes
  /-- An option with the value behind its equals sign; none if no option is spelled so. -/
  | option (s : Option Switch) (value : Option Text)
deriving DecidableEq, Repr

/-- Whether a word looks like a negative number. -/
def looksNegative (t : Text) : Bool :=
  match t with
  | '-' :: rest =>
    let rest := if rest.getLast? = some '\n' then rest.dropLast else rest
    let front := rest.takeWhile Digit.isDigit
    match rest.drop front.length with
    | [] => !front.isEmpty
    | '.' :: digits => !digits.isEmpty && digits.all Digit.isDigit
    | _ => false
  | _ => false

/-- The options a word may stand for: those that it starts, and for a single dash the option of
one letter that it starts with. -/
def candidates (t : Text) : List (Text × Switch × Option Text) :=
  match t with
  | '-' :: '-' :: _ =>
    let start := (cut? '=' t).elim t (·.1)
    let value := (cut? '=' t).map (·.2)
    (Switch.spellings.filter fun entry => start.isPrefixOf entry.1).map fun (spelling, s) =>
      (spelling, s, value)
  | _ =>
    Switch.spellings.filterMap fun (spelling, s) =>
      if spelling = t.take 2 then some (spelling, s, some (t.drop 2))
      else if t.isPrefixOf spelling then some (spelling, s, none)
      else none

/-- The option that a word spells out, with the value behind its equals sign. -/
def spelledOut? (t : Text) : Option (Switch × Option Text) :=
  let find (spelling : Text) : Option Switch :=
    (Switch.spellings.find? fun entry => entry.1 == spelling).map (·.2)
  match find t with
  | some s => some (s, none)
  | none => (cut? '=' t).bind fun (spelling, value) => (find spelling).map fun s => (s, some value)

/-- What a word before any two dashes is. -/
def classify (t : Text) : Except Stop Word :=
  match t with
  | '-' :: _ :: _ =>
    match spelledOut? t with
    | some (s, value) => .ok (.option (some s) value)
    | none =>
      match candidates t with
      | [(_, s, value)] => .ok (.option (some s) value)
      | [] =>
        if looksNegative t || t.contains ' ' then .ok .plain else .ok (.option none none)
      | several =>
        .error (.refused ("ambiguous option: ".toList ++ t ++ " could match ".toList
          ++ join [',', ' '] (several.map (·.1))))
  | _ => .ok .plain

/-- The words told apart. -/
def classifyAll : List Text → Except Stop (List (Text × Word))
  | [] => .ok []
  | t :: rest =>
    if t = ['-', '-'] then .ok ((t, .dashes) :: rest.map fun word => (word, .plain))
    else do
      let word ← classify t
      let others ← classifyAll rest
      return (t, word) :: others

/-! ## Taking words in -/

/-- One of some values that a word names. -/
def choice {α : Type} (s : Switch) (all : List α) (name : α → String) (t : Text) :
    Except Stop α :=
  match all.find? fun a => (name a).toList == t with
  | some a => .ok a
  | none =>
    .error (.argument s ("invalid choice: ".toList ++ Quoted.encode t ++ " (choose from ".toList
      ++ join [',', ' '] (all.map fun a => Quoted.encode (name a).toList) ++ [')']))

/-- The arguments with an option that has a value. -/
def Arguments.put (a : Arguments) (s : Switch) (t : Text) : Except Stop Arguments :=
  match s with
  | .format => (choice s Format.all Format.name t).map fun f => { a with format := f }
  | .indent =>
    match Numeral.read? t with
    | some n => .ok { a with indent := n }
    | none => .error (.argument s ("invalid int value: ".toList ++ Quoted.encode t))
  | .config => .ok { a with config := some t }
  | .headerDetection =>
    (choice s HeaderDetection.all HeaderDetection.name t).map fun mode =>
      { a with flags := { a.flags with headerDetection := some mode } }
  | .logLevel =>
    (choice s Log.Level.all Log.Level.name (Case.upper t)).map fun level =>
      { a with logLevel := level }
  | .logFile => .ok { a with logFile := some t }
  | _ => .ok a

/-- The arguments with an option that has no value. -/
def Arguments.turn (a : Arguments) (s : Switch) : Except Stop Arguments :=
  match s with
  | .help => .error .help
  | .version => .error .version
  | .noConfig => .ok { a with noConfig := true }
  | .keepComments => .ok { a with flags := { a.flags with keepComments := true } }
  | .includeTableHeader => .ok { a with flags := { a.flags with includeTableHeader := true } }
  | .noAdmonitionStyles => .ok { a with flags := { a.flags with noAdmonitionStyles := true } }
  | .noAdmonitionParagraphs =>
    .ok { a with flags := { a.flags with noAdmonitionParagraphs := true } }
  | .trace => .ok { a with trace := true }
  | _ => .ok a

/-- What a value given to an option without one comes to. Behind a single dash more options of
one letter may follow. -/
def Arguments.refuseValue (a : Arguments) (s : Switch) (t value : Text) :
    Except Stop Arguments :=
  if t.take 2 = ['-', '-'] || value.any (· ≠ 'h') || value.isEmpty then
    .error (.argument s ("ignored explicit argument ".toList
      ++ Quoted.encode (if t.take 2 = ['-', '-'] then value else value.dropWhile (· = 'h'))))
  else a.turn s

/-- What has been taken in. -/
structure Progress where
  /-- The arguments so far. -/
  arguments : Arguments := {}
  /-- Whether the inputs have come. -/
  hasInputs : Bool := false
  /-- What was not recognized. -/
  extras : List Text := []

/-- Takes in a run of words that are no options. -/
def Progress.run (p : Progress) (words : List (Text × Word)) : Progress :=
  if words.isEmpty then p
  else if p.hasInputs || !words.any (·.2 = .plain) then
    { p with extras := p.extras ++ words.map (·.1) }
  else
    { p with
      arguments := { p.arguments with
        inputs := (words.filter (·.2 = .plain)).map (·.1) }
      hasInputs := true }

/-- Takes in words; `before` is the run of words that are no options before them. -/
def Progress.take (p : Progress) (before : List (Text × Word)) :
    List (Text × Word) → Except Stop Progress
  | [] => .ok (p.run before)
  | (t, .option none _) :: rest =>
    let p := p.run before
    { p with extras := p.extras ++ [t] }.take [] rest
  | (t, .option (some s) (some value)) :: rest => do
    let p := p.run before
    let a ← if s.takesValue then p.arguments.put s value else p.arguments.refuseValue s t value
    { p with arguments := a }.take [] rest
  | (_, .option (some s) none) :: rest => do
    let p := p.run before
    if s.takesValue then
      match rest with
      | (value, .plain) :: rest =>
        let a ← p.arguments.put s value
        { p with arguments := a }.take [] rest
      | _ => throw (.argument s "expected one argument".toList)
    else
      let a ← p.arguments.turn s
      { p with arguments := a }.take [] rest
  | word :: rest => p.take (before ++ [word]) rest

/-- The arguments that words spell. -/
def Arguments.parse (words : List Text) : Except Stop Arguments := do
  let told ← classifyAll words
  let p ← ({} : Progress).take [] told
  if !p.hasInputs then throw (.refused "the following arguments are required: input".toList)
  else if !p.extras.isEmpty then
    throw (.refused ("unrecognized arguments: ".toList ++ join [' '] p.extras))
  else return p.arguments

end Asciidoc.Command
