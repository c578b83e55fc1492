import Asciidoc.Json.Reading
import Asciidoc.Text.Digit

/-!
# Tables written line by line

The simple part of the TOML format, as configuration files use it: a line is blank, a comment, the
header of a table, or a key and a value. A value is a truth value, a whole or floating-point
number, or a text between double or single quotes. Keys may be dotted. A key or a header that
comes twice is refused, as is everything else. A decimal whole number with more than
`Text.Digit.longest` digits is a failure of its own; numbers of another base may have any number
of them. Of two failures the one that comes first is reported.
-/

namespace Asciidoc.Toml

open Text

/-- What was read, or else the failure of a malformed text. -/
def orMalformed {α : Type} : Option α → Except Json.ReadFault α
  | some a => .ok a
  | none => .error .malformed

/-- A blank between the parts of a line. -/
def isSpace (c : Char) : Bool := c == ' ' || c == '\t'

/-- A control that may stand in no text and no comment. -/
def isControl (c : Char) : Bool := (c.toNat < 0x20 && c != '\t') || c.toNat == 0x7F

/-- A code point of a key without quotes. -/
def isBare (c : Char) : Bool :=
  let n := c.toNat
  (0x30 ≤ n && n ≤ 0x39) || (0x41 ≤ n && n ≤ 0x5A) || (0x61 ≤ n && n ≤ 0x7A)
    || c == '_' || c == '-'

/-- The text without the blanks at its start. -/
def skipSpace (t : Text) : Text := t.dropWhile isSpace

/-- Whether nothing but blanks and a comment is left of a line. -/
def isOver (t : Text) : Bool :=
  match skipSpace t with
  | [] => true
  | '#' :: comment => !comment.any isControl
  | _ => false

/-- The number that hexadecimal digits write. -/
def hexadecimal? (digits : Text) : Option Nat :=
  digits.foldlM (fun n c => (Json.hexValue? c).map (16 * n + ·)) 0

/-- The code point that a number stands for, if it does. -/
def codePoint? (n : Nat) : Option Char :=
  if n < 0xD800 || (0xDFFF < n && n < 0x110000) then some (Char.ofNat n) else none

/-- The code point that a letter behind a backslash stands for. -/
def escaped? (c : Char) : Option Char :=
  if c = 'b' then some '\x08'
  else if c = 't' then some '\t'
  else if c = 'n' then some '\n'
  else if c = 'f' then some '\x0c'
  else if c = 'r' then some '\r'
  else if c = '"' || c = '\\' then some c
  else none

/-- A text between double quotes, from behind the first, and what is left behind the last. -/
def basic? : Text → Option (Text × Text)
  | [] => none
  | '"' :: rest => some ([], rest)
  | '\\' :: 'u' :: a :: b :: c :: d :: rest => do
    let char ← codePoint? (← hexadecimal? [a, b, c, d])
    let (t, left) ← basic? rest
    return (char :: t, left)
  | '\\' :: 'U' :: a :: b :: c :: d :: e :: f :: g :: h :: rest => do
    let char ← codePoint? (← hexadecimal? [a, b, c, d, e, f, g, h])
    let (t, left) ← basic? rest
    return (char :: t, left)
  | '\\' :: c :: rest => do
    let char ← escaped? c
    let (t, left) ← basic? rest
    return (char :: t, left)
  | c :: rest =>
    if isControl c || c = '\\' then none
    else (basic? rest).map fun (t, left) => (c :: t, left)

/-- A text between single quotes, from behind the first, and what is left behind the last. -/
def literal? : Text → Option (Text × Text)
  | [] => none
  | c :: rest =>
    if c = '\x27' then some ([], rest)
    else if isControl c then none
    else (literal? rest).map fun (t, left) => (c :: t, left)

/-- A simple key, and what is left behind it. -/
def simpleKey? (t : Text) : Option (Text × Text) :=
  match t with
  | '"' :: rest => basic? rest
  | c :: rest =>
    if c = '\x27' then literal? rest
    else
      let key := t.takeWhile isBare
      if key.isEmpty then none else some (key, t.drop key.length)
  | [] => none

/-- A dotted key of at most a number of parts, and what is left behind it. -/
def dottedKey? : Nat → Text → Option (List Text × Text)
  | 0, _ => none
  | parts + 1, t => do
    let (key, left) ← simpleKey? (skipSpace t)
    match skipSpace left with
    | '.' :: rest => do
      let (keys, left) ← dottedKey? parts rest
      return (key :: keys, left)
    | left => return ([key], left)

/-- Digits with single underscores between them, without those. -/
def digits? (isDigit : Char → Bool) (afterDigit : Bool) : Text → Option Text
  | [] => if afterDigit then some [] else none
  | c :: rest =>
    if isDigit c then (digits? isDigit true rest).map (c :: ·)
    else if c = '_' && afterDigit then digits? isDigit false rest
    else none

/-- A text cut before the first code point of some. -/
def cutAt (marks : List Char) (t : Text) : Text × Text :=
  (t.takeWhile (!marks.contains ·), t.dropWhile (!marks.contains ·))

/-- The number that decimal digits write, without needless zeros before them. -/
def whole? (t : Text) : Option Text :=
  match t with
  | '0' :: _ :: _ => none
  | _ => digits? Json.isDigit false t

/-- The power of ten behind the letter of an exponent. -/
def power? (t : Text) : Option Int :=
  let (negative, unsigned) :=
    match t with
    | '-' :: rest => (true, rest)
    | '+' :: rest => (false, rest)
    | _ => (false, t)
  (digits? Json.isDigit false unsigned).map fun ds =>
    if negative then -(Digit.number ds) else Digit.number ds

/-- A floating-point number from its whole part, its fraction and its exponent. -/
def float? (negative : Bool) (t : Text) : Option Json := do
  let (mantissa, exponent) := cutAt ['e', 'E'] t
  let (front, point) := cutAt ['.'] mantissa
  let front ← whole? front
  let fraction ← if point.isEmpty then some [] else digits? Json.isDigit false (point.drop 1)
  let power ← if exponent.isEmpty then some 0 else power? (exponent.drop 1)
  if point.isEmpty && exponent.isEmpty then none
  else
    some (.float (Binary64.ofDecimal negative (Digit.number (front ++ fraction))
      (power - fraction.length)))

/-- A number without its sign. -/
def magnitude (negative : Bool) (t : Text) : Except Json.ReadFault Json :=
  if t = "inf".toList then .ok (.float (.infinite negative))
  else if t = "nan".toList then .ok (.float .undefined)
  else
    match whole? t with
    | some digits =>
      if Digit.longest < digits.length then .error .tooLong
      else
        let n : Int := Digit.number digits
        .ok (.int (if negative then -n else n))
    | none => orMalformed (float? negative t)

/-- A number. -/
def number (t : Text) : Except Json.ReadFault Json :=
  match t with
  | '-' :: rest => magnitude true rest
  | '+' :: rest => magnitude false rest
  | '0' :: 'x' :: rest =>
    orMalformed (((digits? (fun c => (Json.hexValue? c).isSome) false rest).bind hexadecimal?).map
      fun n => .int n)
  | _ => magnitude false t

/-- A code point of a value without quotes. -/
def isValuePart (c : Char) : Bool := isBare c || c == '.' || c == '+'

/-- A value, and what is left behind it. -/
def value (t : Text) : Except Json.ReadFault (Json × Text) :=
  match t with
  | '"' :: rest => orMalformed ((basic? rest).map fun (s, left) => (.string s, left))
  | c :: rest =>
    if c = '\x27' then orMalformed ((literal? rest).map fun (s, left) => (.string s, left))
    else
      let word := t.takeWhile isValuePart
      let left := t.drop word.length
      if word = "true".toList then .ok (.bool true, left)
      else if word = "false".toList then .ok (.bool false, left)
      else (number word).map fun n => (n, left)
  | [] => .error .malformed

/-- A table with a value at a path of keys; none if something else is in the way. -/
def insert? (entries : List (Text × Json)) (value : Json) :
    List Text → Option (List (Text × Json))
  | [] => none
  | [key] =>
    match Entries.find? key entries with
    | none => some (Entries.put key value entries)
    | some _ => none
  | key :: rest =>
    match Entries.find? key entries with
    | none => (insert? [] value rest).map fun inner => Entries.put key (.table inner) entries
    | some (.table inner) =>
      (insert? inner value rest).map fun inner => Entries.put key (.table inner) entries
    | some _ => none

/-- A table with a table at a path of keys, which may be there already. -/
def open? (entries : List (Text × Json)) : List Text → Option (List (Text × Json))
  | [] => some entries
  | key :: rest =>
    match Entries.find? key entries with
    | none => (open? [] rest).map fun inner => Entries.put key (.table inner) entries
    | some (.table inner) =>
      (open? inner rest).map fun inner => Entries.put key (.table inner) entries
    | some _ => none

/-- What has been read. -/
structure Progress where
  /-- The entries. -/
  entries : List (Text × Json) := []
  /-- The path of the table that the next entries go to. -/
  path : List Text := []
  /-- The paths of the headers so far. -/
  headers : List (List Text) := []

/-- Takes in a line. -/
def Progress.line (p : Progress) (t : Text) : Except Json.ReadFault Progress :=
  if isOver t then .ok p
  else
    match skipSpace t with
    | '[' :: rest => do
      let (path, left) ← orMalformed (dottedKey? rest.length rest)
      match left with
      | ']' :: left =>
        if !isOver left || p.headers.contains path then .error .malformed
        else
          let entries ← orMalformed (open? p.entries path)
          return { entries := entries, path := path, headers := path :: p.headers }
      | _ => .error .malformed
    | t => do
      let (keys, left) ← orMalformed (dottedKey? t.length t)
      match left with
      | '=' :: left => do
        let (value, left) ← value (skipSpace left)
        if isOver left then
          let entries ← orMalformed (insert? p.entries value (p.path ++ keys))
          return { p with entries := entries }
        else .error .malformed
      | _ => .error .malformed

/-- The lines of a text; a carriage return before a line feed belongs to it. -/
def dropLineReturns : Text → Text
  | '\r' :: '\n' :: rest => '\n' :: dropLineReturns rest
  | c :: rest => c :: dropLineReturns rest
  | [] => []

/-- The table that a text writes. -/
def read (t : Text) : Except Json.ReadFault (List (Text × Json)) :=
  ((Text.lines (dropLineReturns t)).foldlM Progress.line {}).map (·.entries)

end Asciidoc.Toml
