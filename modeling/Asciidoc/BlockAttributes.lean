import Asciidoc.Entries

/-!
# Attributes of a block

A line in brackets says something about the block that follows: `[source,sh]`, `[NOTE]`,
`[%header%autowidth]`, `[cols="1,2",options="header"]`, `[#id]`, `[.role]`. Until that block
comes, what such lines say is gathered in a `BlockAttributes`.

The inside of a line is a list of parts between commas that do not stand between double quotes.
A part with an equals sign names a value; of the others the first is the style with its
shorthands, and the rest are the positional values.

An entry spelled `positional=` puts a text where the positional values go, and no value can be
added to a text. This is the one way in which a line can fail, and the failure keeps whatever
the line had said before it.
-/

namespace Asciidoc

open Text

/-- What is kept under the positional values. -/
inductive Positional where
  /-- The values after the style, in order. -/
  | values (ts : List Text)
  /-- The text of an entry that took their place. -/
  | text (t : Text)
deriving DecidableEq, Repr

/-- The first positional value, or the first code point of the text in its place. -/
def Positional.first? : Positional → Option Text
  | .values ts => ts.head?
  | .text t => t.head?.map ([·])

/-- What the lines before a block say about it. -/
structure BlockAttributes where
  /-- The named values, the style, identifier, role and title among them. -/
  named : List (Text × Text) := []
  /-- The options, each once, if any entry or shorthand spoke of options. -/
  options : Option (List Text) := none
  /-- The positional values, if there are any. -/
  positional : Option Positional := none
deriving DecidableEq, Repr

namespace BlockAttributes

/-- The key of the style. -/
def styleKey : Text := "style".toList

/-- The key of the identifier. -/
def identifierKey : Text := "id".toList

/-- The key of the role. -/
def roleKey : Text := "role".toList

/-- The key of the title. -/
def titleKey : Text := "title".toList

/-- The key of the positional values. -/
def positionalKey : Text := "positional".toList

/-- Whether nothing has been said. -/
def isEmpty (a : BlockAttributes) : Bool :=
  a.named.isEmpty && a.options.isNone && a.positional.isNone

/-- A named value. -/
def value? (a : BlockAttributes) (key : Text) : Option Text := Entries.find? key a.named

/-- The style, or the empty text. -/
def style (a : BlockAttributes) : Text := (a.value? styleKey).getD []

/-- Whether an option is set. -/
def hasOption (a : BlockAttributes) (option : Text) : Bool :=
  (a.options.getD []).contains option

/-- Gives a named value; under the key of the positional values it takes their place. -/
def name (a : BlockAttributes) (key value : Text) : BlockAttributes :=
  if key = positionalKey then { a with positional := some (.text value) }
  else { a with named := Entries.put key value a.named }

/-- Sets options. -/
def addOptions (a : BlockAttributes) (options : List Text) : BlockAttributes :=
  { a with
    options := some (options.foldl (fun known o => if known.contains o then known else known ++ [o])
      (a.options.getD [])) }

/-! ## The parts of a line -/

/-- The parts of a line, the first of which goes on after `begun`. A double quote that is closed
later begins a quoted piece, in which commas do not count; one that is not ends a part. -/
def partsFrom (inQuotes : Bool) (begun : Text) : Text → List Text
  | [] => if begun.isEmpty then [] else [begun]
  | c :: rest =>
    if inQuotes then partsFrom (c ≠ '"') (begun ++ [c]) rest
    else if c = ',' then
      (if begun.isEmpty then [] else [begun]) ++ partsFrom false [] rest
    else if c = '"' then
      if rest.contains '"' then partsFrom true (begun ++ [c]) rest
      else (if begun.isEmpty then [] else [begun]) ++ partsFrom false [] rest
    else partsFrom false (begun ++ [c]) rest

/-- The parts of a line, trimmed. -/
def parts (content : Text) : List Text := (partsFrom false [] content).map trim

/-- The marks of the identifier and role shorthands. -/
def isMark (c : Char) : Bool := c == '#' || c == '.'

/-- The shorthands of a style: each mark with what follows it up to the next. -/
def shorthandsFrom (begun : Option (Char × Text)) : Text → List (Char × Text)
  | [] => (begun.filter (!·.2.isEmpty)).toList
  | c :: rest =>
    if isMark c then (begun.filter (!·.2.isEmpty)).toList ++ shorthandsFrom (some (c, [])) rest
    else shorthandsFrom (begun.map fun (mark, t) => (mark, t ++ [c])) rest

/-- The shorthands of a style. -/
def shorthands (style : Text) : List (Char × Text) := shorthandsFrom none style

/-- The style without its shorthands. What cannot be a shorthand because a line feed follows is
kept. -/
def dropShorthands : Text → Text
  | [] => []
  | c :: rest =>
    if isMark c then
      if !rest.contains '\n' then []
      else if rest.getLast? = some '\n' && !rest.dropLast.contains '\n' then ['\n']
      else c :: dropShorthands rest
    else c :: dropShorthands rest

/-- Takes in the value of a key. The two spellings of the options key set options; quotes
around a value are dropped. -/
def addEntry (a : BlockAttributes) (key value : Text) : BlockAttributes :=
  let key := trim key
  let value := strip ['"', '\x27'] (trim value)
  if key = "opts".toList || key = "options".toList then
    a.addOptions (((split ',' value).map trim).filter (!·.isEmpty))
  else a.name key value

/-- Takes in the first part of a line: the style, its shorthands and its options. -/
def addStyle (a : BlockAttributes) (part : Text) : BlockAttributes :=
  match split '%' part with
  | [] => a
  | style :: options =>
    let a := (shorthands style).foldl
      (fun a (mark, t) => a.name (if mark = '#' then identifierKey else roleKey) t) a
    let style := dropShorthands style
    let a := if style.isEmpty then a else a.name styleKey style
    if options.isEmpty then a else a.addOptions options

/-- Takes in the parts of a line from a position on; gives the positional values found. -/
def addParts (a : BlockAttributes) (atFirst : Bool) : List Text → BlockAttributes × List Text
  | [] => (a, [])
  | part :: rest =>
    match cut? '=' part with
    | some (key, value) => (a.addEntry key value).addParts false rest
    | none =>
      if atFirst then (a.addStyle part).addParts false rest
      else
        let (a, values) := a.addParts false rest
        (a, part :: values)

/-- What taking in a line gives: what is now known, and whether its positional values could not
be added. -/
structure Added where
  /-- What is known after the line. -/
  attributes : BlockAttributes
  /-- Whether a text stands where the positional values would go. -/
  conflict : Bool
deriving DecidableEq, Repr

/-- Takes in the inside of a line in brackets. -/
def add (a : BlockAttributes) (content : Text) : Added :=
  let (a, values) := a.addParts true (parts content)
  if values.isEmpty then ⟨a, false⟩
  else
    match a.positional with
    | none => ⟨{ a with positional := some (.values values) }, false⟩
    | some (.values before) => ⟨{ a with positional := some (.values (before ++ values)) }, false⟩
    | some (.text _) => ⟨a, true⟩

end BlockAttributes

end Asciidoc
