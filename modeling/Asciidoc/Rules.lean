import Asciidoc.Token.OfLine

/-!
# Rules of reading and locating

The choices a document can be read and its text located with. They are the effect of a
configuration; what a configuration may say is the business of `Asciidoc.Settings`.
-/

namespace Asciidoc

/-- How the first row of a table is recognised as its header. -/
inductive HeaderDetection where
  /-- By its options, or as a first line that holds the whole row before a blank line. -/
  | implicit
  /-- By its options only. -/
  | attributeBased
  /-- Never. -/
  | never
deriving DecidableEq, Repr

/-- The word for a way to recognise headers. -/
def HeaderDetection.name : HeaderDetection → String
  | .implicit => "implicit"
  | .attributeBased => "attribute-based"
  | .never => "none"

/-- The ways to recognise headers, in the order in which they are listed to a user. -/
def HeaderDetection.all : List HeaderDetection := [.implicit, .attributeBased, .never]

/-- The way to recognise headers that a word names. -/
def HeaderDetection.ofName? (t : Text) : Option HeaderDetection :=
  all.find? fun mode => mode.name.toList == t

/-- The choices of the block reader. -/
structure Rules.Reading where
  /-- Whether a style such as `NOTE` makes the next block an admonition. -/
  admonitionStyles : Bool := true
  /-- Whether a paragraph that starts with `NOTE:` is an admonition. -/
  admonitionParagraphs : Bool := true
  /-- How header rows are recognised. -/
  headerDetection : HeaderDetection := .implicit
deriving DecidableEq, Repr

/-- The choices of reading and locating. -/
structure Rules where
  /-- Whether comment lines are stepped over when text is located. -/
  skipComments : Bool := true
  /-- What comment lines start with. -/
  marker : Marker := .text Marker.slashes
  /-- Whether header rows are converted too. -/
  includeTableHeader : Bool := false
  /-- The choices of the block reader. -/
  reading : Rules.Reading := {}
deriving DecidableEq, Repr

end Asciidoc
