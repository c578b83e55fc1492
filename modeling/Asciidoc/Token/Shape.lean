import Asciidoc.Text.Digit

/-!
# The shapes of lines

One recogniser for every shape a line can have. Each takes the line, trimmed or as written, and
gives the parts the shape captures. A shape with a part of open length takes the shortest part
that lets the rest fit; parts do not pass over line feeds.

The captures are pieces of the line. That they can be found in it again is what the recovery of
locations rests on.
-/

namespace Asciidoc.Shape

open Text

/-- The letters, digits and underscore of attribute names. -/
def isWord (c : Char) : Bool :=
  let n := c.toNat
  (0x30 ≤ n && n ≤ 0x39) || (0x41 ≤ n && n ≤ 0x5A) || (0x61 ≤ n && n ≤ 0x7A) || c == '_'

/-- The ASCII letters. -/
def isLetter (c : Char) : Bool :=
  let n := c.toNat
  (0x41 ≤ n && n ≤ 0x5A) || (0x61 ≤ n && n ≤ 0x7A)

/-- The upper-case ASCII letters. -/
def isCapital (c : Char) : Bool := 0x41 ≤ c.toNat && c.toNat ≤ 0x5A

/-- Whether a text is at least `least` times one code point. -/
def isRun (least : Nat) (c : Char) (t : Text) : Bool := least ≤ t.length && t.all (· == c)

/-- What follows the blanks a text must begin with, if something follows on their line. -/
def afterBlanks? (t : Text) : Option Text :=
  match t with
  | [] => none
  | c :: _ =>
    if isBlank c then
      match trimLeft t with
      | [] => none
      | body => if body.contains '\n' then none else some body
    else none

/-- Whether what is left of a title line closes it: blanks, or blanks and the title's marks once
more. -/
def closesTitle (marks left : Text) : Bool :=
  allBlank left ||
    match left with
    | [] => true
    | c :: _ =>
      isBlank c && marks.isPrefixOf (trimLeft left)
        && allBlank ((trimLeft left).drop marks.length)

/-- A title line as written: one to six equals signs or hashes, blanks, the title, and perhaps
the same marks again. Gives the level and the title. -/
def heading? (line : Text) : Option (Nat × Text) :=
  match line with
  | [] => none
  | mark :: _ =>
    if mark = '=' || mark = '#' then
      let marks := line.takeWhile (· == mark)
      let rest := line.dropWhile (· == mark)
      if marks.length ≤ 6 && (rest.head?.elim false isBlank) then
        match trimLeft rest with
        | [] => none
        | c :: more =>
          (shortest (closesTitle marks) more).map fun (title, _) =>
            (marks.length - 1, c :: title)
      else none
    else none

/-- A name between two pairs of brackets. -/
def anchor? (t : Text) : Option Text :=
  match t with
  | '[' :: '[' :: rest =>
    let name := rest.takeWhile (· ≠ ']')
    if name.isEmpty then none
    else if rest.dropWhile (· ≠ ']') = [']', ']'] then some name else none
  | _ => none

/-- What stands between a pair of brackets around the whole line. -/
def blockAttribute? (t : Text) : Option Text :=
  match t with
  | '[' :: rest =>
    let inside := rest.takeWhile fun c => c ≠ '[' && c ≠ ']'
    if rest.dropWhile (fun c => c ≠ '[' && c ≠ ']') = [']'] then some inside else none
  | _ => none

/-- What follows the colon of an attribute entry: nothing, or blanks and the value. -/
def entryValue? (t : Text) : Option Text :=
  match t with
  | [] => some []
  | c :: _ =>
    if isBlank c then
      let value := trim t
      if value.contains '\n' then none else some value
    else none

/-- An attribute entry as written: a name between colons, with an exclamation mark before or
after it to unset it. Gives the name, the value and whether it is unset. -/
def attribute? (line : Text) : Option (Text × Text × Bool) :=
  match line with
  | ':' :: rest =>
    let (before, rest) :=
      match rest with
      | '!' :: more => (true, more)
      | more => (false, more)
    match rest with
    | [] => none
    | c :: _ =>
      if isWord c then
        let name := rest.takeWhile fun c => isWord c || c == '-'
        match rest.dropWhile fun c => isWord c || c == '-' with
        | '!' :: ':' :: value => (entryValue? value).map (name, ·, true)
        | ':' :: value => (entryValue? value).map (name, ·, before)
        | _ => none
      else none
  | _ => none

/-- Whether what is left of an image line is its bracketed text. -/
def closesImage (left : Text) : Bool :=
  match left with
  | '[' :: rest =>
    match rest.reverse with
    | ']' :: inside => !inside.contains '\n'
    | _ => false
  | _ => false

/-- An image line: its target, without blanks, and a text in brackets. -/
def image? (t : Text) : Option Text :=
  if "image::".toList.isPrefixOf t then
    match t.drop 7 with
    | [] => none
    | c :: more =>
      match shortest closesImage more with
      | none => none
      | some (target, _) =>
        if (c :: target).any isBlank then none else some (c :: target)
  else none

/-- An item of an unordered list: one to five asterisks or a dash, blanks and the text. -/
def unorderedItem? (t : Text) : Option (Text × Text) :=
  match t with
  | '-' :: rest => (afterBlanks? rest).map (['-'], ·)
  | '*' :: _ =>
    let marker := t.takeWhile (· == '*')
    if marker.length ≤ 5 then (afterBlanks? (t.dropWhile (· == '*'))).map (marker, ·) else none
  | _ => none

/-- A checkbox before an item's text: its state and the text. -/
def checkbox? (t : Text) : Option (Bool × Text) :=
  match t with
  | '[' :: state :: ']' :: rest =>
    if state = ' ' || state = 'x' || state = 'X' || state = '*' then
      (afterBlanks? rest).map (state ≠ ' ', ·)
    else none
  | _ => none

/-- An item of an ordered list: one to five points, digits or a letter before a point, blanks
and the text. Numerals of one style share a marker. -/
def orderedItem? (t : Text) : Option (Text × Text) :=
  match t with
  | '.' :: _ =>
    let marker := t.takeWhile (· == '.')
    if marker.length ≤ 5 then (afterBlanks? (t.dropWhile (· == '.'))).map (marker, ·) else none
  | c :: rest =>
    if Digit.isDigit c then
      match t.dropWhile Digit.isDigit with
      | '.' :: more => (afterBlanks? more).map (['1', '.'], ·)
      | _ => none
    else if isLetter c then
      match rest with
      | '.' :: more => (afterBlanks? more).map (if isCapital c then ['A', '.'] else ['a', '.'], ·)
      | _ => none
    else none
  | [] => none

/-- A block title: a point and a text that starts with neither a point nor a blank. -/
def blockTitle? (t : Text) : Option Text :=
  match t with
  | '.' :: c :: rest =>
    if c = '.' || isBlank c || rest.contains '\n' then none else some (c :: rest)
  | _ => none

/-- What follows a term's delimiter: nothing, or blanks and the description. -/
def description? (t : Text) : Option Text := entryValue? t

/-- The delimiter a text begins with, and the description behind it. -/
def delimiter? (t : Text) : Option (Text × Text) :=
  match t with
  | ';' :: ';' :: rest => (description? rest).map ([';', ';'], ·)
  | ':' :: _ =>
    let delimiter := t.takeWhile (· == ':')
    if 2 ≤ delimiter.length && delimiter.length ≤ 4 then
      (description? (t.dropWhile (· == ':'))).map (delimiter, ·)
    else none
  | _ => none

/-- A term of a description list: the shortest term that ends in no blank, a delimiter, and
perhaps a description. -/
def term? : Text → Option (Text × Text × Text)
  | [] => none
  | c :: rest =>
    match if isBlank c then none else delimiter? rest with
    | some (delimiter, description) => some ([c], delimiter, description)
    | none =>
      if c = '\n' then none
      else (term? rest).map fun (term, parts) => (c :: term, parts)

/-- The label of a paragraph: capitals before a colon, and the text behind it. -/
def label? (t : Text) : Option (Text × Text) :=
  match t.takeWhile isCapital with
  | [] => none
  | label =>
    match t.dropWhile isCapital with
    | ':' :: rest => (afterBlanks? rest).map (label, ·)
    | _ => none

end Asciidoc.Shape
