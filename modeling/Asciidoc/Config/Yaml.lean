import Asciidoc.Json.Basic
import Asciidoc.Config.Toml

/-!
# Values written by indentation

The simple part of the YAML format, as configuration files use it: nothing, a scalar, a list of
scalars with a dash each, or a mapping of keys to scalars, lists and mappings that stand on
deeper lines. A scalar is plain or between quotes; a plain one may go on over deeper lines, and
some words and numerals stand for truth values, null and numbers. Everything else is refused.

A decimal whole number with more than `Text.Digit.longest` digits is a failure of its own, which
counts only if nothing else is wrong with the text. So a text is read twice: once for its form, and
once with such numbers refused.
-/

namespace Asciidoc.Yaml

open Text

/-- A code point that may not stand in the format. -/
def isForbidden (c : Char) : Bool :=
  let n := c.toNat
  !(n = 9 || n = 10 || n = 13 || (0x20 ≤ n && n ≤ 0x7E) || n = 0x85
    || (0xA0 ≤ n && n ≤ 0xFFFD) || 0x10000 ≤ n)

/-! ## Scalars -/

/-- Words that stand for true. -/
def trueWords : List String := ["yes", "Yes", "YES", "true", "True", "TRUE", "on", "On", "ON"]

/-- Words that stand for false. -/
def falseWords : List String :=
  ["no", "No", "NO", "false", "False", "FALSE", "off", "Off", "OFF"]

/-- Words that stand for null. -/
def nullWords : List String := ["", "~", "null", "Null", "NULL"]

/-- The number that digits of a base write. -/
def inBase? (base : Nat) (digits : Text) : Option Nat :=
  digits.foldlM (fun n c =>
    match Json.hexValue? c with
    | some d => if d < base then some (base * n + d) else none
    | none => none) 0

/-- The digits of a numeral without underscores; the first code point has to be a digit. -/
def plainDigits? (t : Text) : Option Text :=
  match t with
  | c :: _ => if Json.isDigit c then some (t.filter (· ≠ '_')) else none
  | [] => none

/-- A whole number without its sign. -/
def whole? (t : Text) : Option Nat :=
  match t with
  | ['0'] => some 0
  | '0' :: 'b' :: rest => if rest.isEmpty then none else inBase? 2 (rest.filter (· ≠ '_'))
  | '0' :: 'x' :: rest => if rest.isEmpty then none else inBase? 16 (rest.filter (· ≠ '_'))
  | '0' :: rest => inBase? 8 (rest.filter (· ≠ '_'))
  | _ => (plainDigits? t).bind (inBase? 10)

/-- The power of ten behind the letter of an exponent, which has a sign. -/
def power? (t : Text) : Option Int :=
  match t with
  | '-' :: c :: rest => (inBase? 10 (c :: rest)).map fun n => -(n : Int)
  | '+' :: c :: rest => (inBase? 10 (c :: rest)).map fun n => (n : Int)
  | _ => none

/-- A floating-point number without its sign; it has a point. -/
def float? (negative : Bool) (t : Text) : Option Json :=
  if [".inf", ".Inf", ".INF"].contains (String.ofList t) then some (.float (.infinite negative))
  else do
    let (mantissa, exponent) := Toml.cutAt ['e', 'E'] t
    let (front, point) := Toml.cutAt ['.'] mantissa
    let fraction := (point.drop 1).filter (· ≠ '_')
    let front := front.filter (· ≠ '_')
    let power ← if exponent.isEmpty then some 0 else power? (exponent.drop 1)
    let digits ← inBase? 10 (front ++ fraction)
    let startsWell := match t with
      | '.' :: c :: _ | c :: _ => Json.isDigit c
      | [] => false
    if point.isEmpty || !startsWell then none
    else some (.float (Binary64.ofDecimal negative digits (power - fraction.length)))

/-- A number. -/
def number? (t : Text) : Option Json :=
  let (negative, unsigned) :=
    match t with
    | '-' :: rest => (true, rest)
    | '+' :: rest => (false, rest)
    | _ => (false, t)
  match whole? unsigned with
  | some n => some (.int (if negative then -(n : Int) else n))
  | none => float? negative unsigned

/-- Whether a plain scalar stands for a whole number with too many digits to be read. Only decimal
numerals can have too many. -/
def isTooLong (t : Text) : Bool :=
  let unsigned := match t with
    | '-' :: rest | '+' :: rest => rest
    | _ => t
  match unsigned with
  | '0' :: _ => false
  | _ => (plainDigits? unsigned).any fun digits =>
    (inBase? 10 digits).isSome && Digit.longest < digits.length

/-- What a plain scalar stands for; nothing if numbers are limited and it is too long. -/
def resolve? (limited : Bool) (t : Text) : Option Json :=
  let word := String.ofList t
  if limited && isTooLong t then none
  else if trueWords.contains word then some (.bool true)
  else if falseWords.contains word then some (.bool false)
  else if nullWords.contains word then some .null
  else if [".nan", ".NaN", ".NAN"].contains word then some (.float .undefined)
  else some ((number? t).getD (.string t))

/-- A text between single quotes, from behind the first, and what is left behind the last. Two
quotes in it are one. -/
def singleQuoted? : Text → Option (Text × Text)
  | [] => none
  | '\x27' :: '\x27' :: rest => (singleQuoted? rest).map fun (t, left) => ('\x27' :: t, left)
  | c :: rest =>
    if c = '\x27' then some ([], rest)
    else (singleQuoted? rest).map fun (t, left) => (c :: t, left)

/-- The code point that a letter behind a backslash stands for. -/
def escaped? (c : Char) : Option Char :=
  if c = '0' then some '\x00'
  else if c = 'a' then some '\x07'
  else if c = 'v' then some '\x0b'
  else if c = 'e' then some '\x1b'
  else if c = ' ' || c = '/' || c = '\t' then some c
  else if c = 'N' then some '\u0085'
  else if c = '_' then some '\u00a0'
  else Toml.escaped? c

/-- A text between double quotes, from behind the first, and what is left behind the last. -/
def doubleQuoted? : Text → Option (Text × Text)
  | [] => none
  | '"' :: rest => some ([], rest)
  | '\\' :: 'x' :: a :: b :: rest => do
    let char ← Toml.codePoint? (← Toml.hexadecimal? [a, b])
    let (t, left) ← doubleQuoted? rest
    return (char :: t, left)
  | '\\' :: 'u' :: a :: b :: c :: d :: rest => do
    let char ← Toml.codePoint? (← Toml.hexadecimal? [a, b, c, d])
    let (t, left) ← doubleQuoted? rest
    return (char :: t, left)
  | '\\' :: c :: rest => do
    let char ← escaped? c
    let (t, left) ← doubleQuoted? rest
    return (char :: t, left)
  | c :: rest =>
    if c = '\\' then none else (doubleQuoted? rest).map fun (t, left) => (c :: t, left)

/-- A text without a comment behind it, which a blank or the start of the text comes before. -/
def dropComment (afterBlank : Bool) : Text → Text
  | [] => []
  | c :: rest =>
    if c = '#' && afterBlank then [] else c :: dropComment (c = ' ' || c = '\t') rest

/-- The blanks at the end of a line and a comment do not belong to a plain scalar. -/
def plainText (t : Text) : Text :=
  ((dropComment true t).reverse.dropWhile fun c => c = ' ' || c = '\t').reverse

/-- Whether a plain scalar may start with these code points. -/
def startsPlain : Text → Bool
  | [] => true
  | [c] => !("-?:,[]\x7b\x7d#&*!|>%@\x60\"\x27".toList.contains c)
  | c :: d :: _ =>
    if c = '-' || c = '?' || c = ':' then !(d = ' ' || d = '\t')
    else !(",[]\x7b\x7d#&*!|>%@\x60\"\x27".toList.contains c)

/-- A text cut at the colon that ends a key: one before a blank or at the end. -/
def cutKey? : Text → Option (Text × Text)
  | [] => none
  | [c] => if c = ':' then some ([], []) else none
  | c :: d :: rest =>
    if c = ':' && (d = ' ' || d = '\t') then some ([], d :: rest)
    else (cutKey? (d :: rest)).map fun (key, left) => (c :: key, left)

/-- A scalar that takes up the rest of a line. -/
def scalar? (limited : Bool) (t : Text) : Option Json :=
  match t with
  | '"' :: rest => do
    let (s, left) ← doubleQuoted? rest
    if (plainText left).isEmpty then return .string s else none
  | c :: rest =>
    if c = '\x27' then do
      let (s, left) ← singleQuoted? rest
      if (plainText left).isEmpty then return .string s else none
    else
      let plain := plainText t
      if startsPlain plain && (cutKey? plain).isNone then resolve? limited plain else none
  | [] => some .null

/-- A key and what stands behind its colon. -/
def pair? (limited : Bool) (t : Text) : Option (Json × Text) :=
  match t with
  | '"' :: rest => do
    let (s, left) ← doubleQuoted? rest
    let (between, left) ← cutKey? left
    if between.isEmpty then return (.string s, left) else none
  | c :: rest =>
    if c = '\x27' then do
      let (s, left) ← singleQuoted? rest
      let (between, left) ← cutKey? left
      if between.isEmpty then return (.string s, left) else none
    else do
      let (key, left) ← cutKey? t
      if startsPlain key && !key.isEmpty then
        return (← resolve? limited (plainText key), left)
      else none
  | [] => none

/-! ## Lines -/

/-- A line with something on it: the blanks before it and the rest. -/
structure Line where
  /-- How far it is indented. -/
  indent : Nat
  /-- What stands on it. -/
  content : Text

/-- Whether a line is an item of a list. -/
def Line.isItem (l : Line) : Bool :=
  match l.content with
  | ['-'] => true
  | '-' :: c :: _ => c = ' ' || c = '\t'
  | _ => false

/-- The lines with something on them. -/
def significant (t : Text) : List Line :=
  ((Text.lines t).map fun line =>
    (⟨(line.takeWhile (· = ' ')).length, line.dropWhile (· = ' ')⟩ : Line)).filter
      fun l => !(plainText l.content).isEmpty

/-- The scalar that a plain start and the lines it goes on over make. -/
def folded? (limited : Bool) (start : Text) (more : List Line) : Option Json :=
  if more.isEmpty then scalar? limited start
  else
    let plain := startsPlain start
    let texts := (start :: more.map (·.content)).map plainText
    if plain && texts.all fun t => (cutKey? t).isNone then some (.string (join [' '] texts)) else none

mutual

/-- The value of lines that are indented alike or deeper than the first. -/
def block? (limited : Bool) : Nat → List Line → Option Json
  | 0, _ => none
  | _, [] => some .null
  | fuel + 1, first :: rest =>
    if first.content.head? = some '\t' then none
    else if first.isItem then
      (items? limited fuel first.indent (first :: rest)).map .list
    else if (pair? limited first.content).isSome then
      (entries? limited fuel first.indent [] (first :: rest)).map .table
    else folded? limited first.content rest

/-- The items of a list. -/
def items? (limited : Bool) : Nat → Nat → List Line → Option (List Json)
  | 0, _, _ => none
  | _, _, [] => some []
  | fuel + 1, indent, first :: rest =>
    if first.indent ≠ indent || !first.isItem then none
    else do
      let below := rest.takeWhile fun l => indent < l.indent
      let left := rest.dropWhile fun l => indent < l.indent
      let inner := (first.content.drop 1).dropWhile (· = ' ')
      let item ←
        if inner.isEmpty then block? limited fuel below
        else
          block? limited fuel
            (⟨first.indent + (first.content.length - inner.length), inner⟩ :: below)
      let others ← items? limited fuel indent left
      return item :: others

/-- The entries of a mapping, on top of those known. -/
def entries? (limited : Bool) :
    Nat → Nat → List (Text × Json) → List Line → Option (List (Text × Json))
  | 0, _, _, _ => none
  | _, _, known, [] => some known
  | fuel + 1, indent, known, first :: rest =>
    if first.indent ≠ indent || first.isItem then none
    else do
      let (key, behind) ← pair? limited first.content
      let behind := behind.dropWhile fun c => c = ' ' || c = '\t'
      let isBelow : Line → Bool := fun l => indent < l.indent
      let below := rest.takeWhile isBelow
      let left := rest.dropWhile isBelow
      if !(plainText behind).isEmpty then
        let value ← folded? limited behind below
        entries? limited fuel indent (Entries.put key.plain value known) left
      else if !below.isEmpty then
        let value ← block? limited fuel below
        entries? limited fuel indent (Entries.put key.plain value known) left
      else
        let isItem : Line → Bool := fun l => indent < l.indent || (l.indent = indent && l.isItem)
        let value ← block? limited fuel (left.takeWhile isItem)
        entries? limited fuel indent (Entries.put key.plain value known) (left.dropWhile isItem)

end

/-- The lines of the one document of a text, without the marks at its start and end. -/
def documentLines? (lines : List Line) : Option (List Line) :=
  let isMark : Line → Bool := fun l => l.indent = 0 && plainText l.content = ['-', '-', '-']
  let isEnd : Line → Bool := fun l => l.indent = 0 && plainText l.content = ['.', '.', '.']
  let inside := match lines with
    | [] => []
    | l :: rest => if isMark l then rest else l :: rest
  let body := inside.takeWhile (!isEnd ·)
  if body.any isMark || !(inside.dropWhile (!isEnd ·)).all isEnd then none else some body

/-- The value that a text writes, if its form is right; if numbers are limited, none in it may be
too long. -/
def value? (limited : Bool) (t : Text) : Option Json :=
  if t.any isForbidden then none
  else do
    let t := match t with
      | '\ufeff' :: rest => rest
      | _ => t
    let lines ← documentLines? (significant t)
    block? limited (2 * t.length + 2) lines

/-- The value that a text writes. -/
def read (t : Text) : Except Json.ReadFault Json :=
  match value? false t, value? true t with
  | none, _ => .error .malformed
  | some _, none => .error .tooLong
  | some _, some value => .ok value

end Asciidoc.Yaml
