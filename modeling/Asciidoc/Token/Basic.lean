import Asciidoc.Text.Digit

/-!
# Tokens: classified lines

A document is read line by line. A token is a line together with what the line is when it is
looked at on its own: whether a list marker inside a listing block is content is decided by the
reader of blocks, not here.

Every token keeps the physical line it was made from, so the reader can fall back on the line
as written, and the part of it that is the token's content.
-/

namespace Asciidoc

/-- What the lines between two delimiters of a block are. -/
inductive Frame where
  | listing
  | literal
  | quote
  | example
  | sidebar
  | pass
  | comment
deriving DecidableEq, Repr

/-- The word for a frame. -/
def Frame.name : Frame → String
  | .listing => "listing"
  | .literal => "literal"
  | .quote => "quote"
  | .example => "example"
  | .sidebar => "sidebar"
  | .pass => "pass"
  | .comment => "comment"

/-- The frame whose delimiters repeat a code point. -/
def Frame.ofChar? (c : Char) : Option Frame :=
  if c = '-' then some .listing
  else if c = '.' then some .literal
  else if c = '_' then some .quote
  else if c = '=' then some .example
  else if c = '*' then some .sidebar
  else if c = '+' then some .pass
  else if c = '/' then some .comment
  else none

namespace Token

/-- What a line is on its own. -/
inductive Kind where
  /-- A title of a level: one less than the number of its marks. -/
  | heading (level : Nat)
  /-- Four or more of one mark: a block opens or closes. -/
  | blockDelimiter (frame : Frame)
  /-- Two dashes: an open block opens or closes. -/
  | openDelimiter
  /-- Three backticks, perhaps with a language. -/
  | fence (language : Option Text)
  /-- A bar and at least three equals signs. -/
  | tableDelimiter
  | thematicBreak
  | pageBreak
  | blockImage
  /-- An item of an unordered list; `checked` is the state of its checkbox. -/
  | unorderedItem (marker : Text) (checked : Option Bool)
  /-- An item of an ordered list. Explicit numerals of one style share a marker. -/
  | orderedItem (marker : Text)
  /-- A term of a description list and the text behind its delimiter. -/
  | term (delimiter description : Text)
  /-- A plus sign: what follows belongs to the list item before. -/
  | continuation
  /-- An attribute entry; the content is its name. -/
  | attribute (value : Text) (unset : Bool)
  /-- Attributes of the block that follows, in brackets. -/
  | blockAttribute
  | anchor
  | blockTitle
  | comment
  | blank
  | text
deriving DecidableEq, Repr

end Token

/-- A classified line. -/
structure Token where
  /-- What the line is. -/
  kind : Token.Kind
  /-- The title, item text, name or trimmed line. -/
  content : Text
  /-- The number of the line. -/
  line : Int
  /-- The line as written, without carriage returns at its end. -/
  text : Text
  /-- The number of blanks the line begins with. -/
  indent : Nat
deriving DecidableEq, Repr

/-- The classified lines of a document and the number of the line after the last. -/
structure Tokens where
  /-- One token a line. -/
  list : List Token
  /-- The number of the line after the last one. -/
  endLine : Int
deriving DecidableEq, Repr

namespace Token

/-- A blank line or a single-line comment: what the reader passes over between blocks. -/
def isSkipped (t : Token) : Bool := t.kind = .blank || t.kind = .comment

/-- A line that opens and closes a block of blocks or lines. -/
def isDelimiter (t : Token) : Bool :=
  match t.kind with
  | .blockDelimiter _ | .openDelimiter => true
  | _ => false

/-- The list marker of an item line. -/
def marker? (t : Token) : Option Text :=
  match t.kind with
  | .unorderedItem marker _ | .orderedItem marker => some marker
  | _ => none

/-- The description on a term line with a given delimiter. -/
def description? (delimiter : Text) (t : Token) : Option Text :=
  match t.kind with
  | .term d description => if d = delimiter then some description else none
  | _ => none

/-- An attribute entry. -/
def isAttribute (t : Token) : Bool :=
  match t.kind with
  | .attribute _ _ => true
  | _ => false

/-- A line that only says something about the block after it. -/
def isMetadata (t : Token) : Bool :=
  match t.kind with
  | .blockAttribute | .anchor | .blockTitle | .attribute _ _ => true
  | _ => false

/-- A line that ends a paragraph. Inside a list item the lines that continue the list do too. -/
def endsParagraph (inList : Bool) (t : Token) : Bool :=
  match t.kind with
  | .blank | .blockDelimiter _ | .openDelimiter | .fence _ | .tableDelimiter => true
  | .unorderedItem _ _ | .orderedItem _ | .continuation | .term _ _ => inList
  | _ => false

end Token

end Asciidoc
