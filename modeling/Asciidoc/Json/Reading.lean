import Asciidoc.Json.Basic

/-!
# Reading the interchange format

A text is one value with blanks around it. Quoted texts hold no bare controls, lists and tables
no comma before their end, and of equal keys the last entry counts. Two escapes of surrogates that
belong together write one character; any other surrogate is read as what it is, so that the texts
of the value are made of code points. Two failures are told apart: a text that is no value, and a
whole number with more digits than can be read (`Text.Digit.longest`); of two failures the one that
comes first in the text is reported.

Reading a value goes down by a bound on the steps still allowed. The length of the text is
enough for any text, since every step passes over at least one code point.
-/

namespace Asciidoc.Json

/-- Why a text could not be read. -/
inductive ReadFault where
  /-- The text is not a value of the format. -/
  | malformed
  /-- A whole number has too many digits. -/
  | tooLong
deriving DecidableEq, Repr

/-- The blanks of the format. -/
def isSpace (c : Char) : Bool := c == ' ' || c == '\t' || c == '\n' || c == '\r'

/-- The text from its first code point that is no blank of the format. -/
def skipSpace (t : Text) : Text := t.dropWhile isSpace

/-- The value of a hexadecimal digit. -/
def hexValue? (c : Char) : Option Nat :=
  let n := c.toNat
  if 0x30 ≤ n && n ≤ 0x39 then some (n - 0x30)
  else if 0x41 ≤ n && n ≤ 0x46 then some (n - 0x37)
  else if 0x61 ≤ n && n ≤ 0x66 then some (n - 0x57)
  else none

/-- The number that four hexadecimal digits write. -/
def unit? (a b c d : Char) : Option Nat := do
  let a ← hexValue? a
  let b ← hexValue? b
  let c ← hexValue? c
  let d ← hexValue? d
  return ((a * 16 + b) * 16 + c) * 16 + d

/-- The code point behind a letter escape. -/
def escaped? (c : Char) : Option Char :=
  if c = '"' || c = '\\' || c = '/' then some c
  else if c = 'n' then some '\n'
  else if c = 'r' then some '\r'
  else if c = 't' then some '\t'
  else if c = 'b' then some (Char.ofNat 0x08)
  else if c = 'f' then some (Char.ofNat 0x0C)
  else none

/-- The low surrogate a text begins with, and what follows it. -/
def lowSurrogate? : Text → Option (Nat × Text)
  | '\\' :: 'u' :: a :: b :: c :: d :: rest =>
    match unit? a b c d with
    | some low => if 0xDC00 ≤ low && low ≤ 0xDFFF then some (low, rest) else none
    | none => none
  | _ => none

/-- The code point written by an escaped unit, together with the low surrogate that may follow
it. -/
def unitPoint (n : Nat) (rest : Text) : CodePoint × Text :=
  if 0xD800 ≤ n && n ≤ 0xDBFF then
    match lowSurrogate? rest with
    | some (low, rest) =>
      (.ofNat (0x10000 + (n - 0xD800) * 0x400 + (low - 0xDC00)), rest)
    | none => (.ofNat n, rest)
  else (.ofNat n, rest)

theorem lowSurrogate?_length {t rest : Text} {low : Nat} (h : lowSurrogate? t = some (low, rest)) :
    rest.length ≤ t.length := by
  unfold lowSurrogate? at h
  split at h
  · split at h
    · split at h
      · simp only [Option.some.injEq, Prod.mk.injEq] at h
        obtain ⟨_, rfl⟩ := h
        simp only [List.length_cons]; omega
      · simp at h
    · simp at h
  · simp at h

theorem unitPoint_length (n : Nat) (rest : Text) : (unitPoint n rest).2.length ≤ rest.length := by
  unfold unitPoint
  split
  · split
    · rename_i h; exact lowSurrogate?_length h
    · exact Nat.le_refl _
  · exact Nat.le_refl _

/-- The rest of a quoted text, after its opening quote. -/
def quoted : Text → Except ReadFault (List CodePoint × Text)
  | [] => .error .malformed
  | '"' :: rest => .ok ([], rest)
  | '\\' :: 'u' :: a :: b :: c :: d :: rest =>
    match unit? a b c d with
    | none => .error .malformed
    | some n => do
      let (t, left) ← quoted (unitPoint n rest).2
      return ((unitPoint n rest).1 :: t, left)
  | '\\' :: c :: rest =>
    match escaped? c with
    | none => .error .malformed
    | some e => do
      let (t, left) ← quoted rest
      return (.char e :: t, left)
  | c :: rest =>
    if c.toNat < 0x20 || c = '\\' then .error .malformed
    else do
      let (t, left) ← quoted rest
      return (.char c :: t, left)
termination_by t => t.length
decreasing_by
  · have := unitPoint_length n rest
    simp only [List.length_cons]; omega
  · simp only [List.length_cons]; omega
  · simp only [List.length_cons]; omega

/-- The ASCII digits. -/
def isDigit (c : Char) : Bool := 0x30 ≤ c.toNat && c.toNat ≤ 0x39

/-- The fraction a text begins with: a point and at least one digit. -/
def fraction? : Text → Option (Text × Text)
  | '.' :: rest =>
    match rest.takeWhile isDigit with
    | [] => none
    | digits => some (digits, rest.dropWhile isDigit)
  | _ => none

/-- The exponent a text begins with: a letter, perhaps a sign, and at least one digit. -/
def exponent? : Text → Option (Int × Text)
  | e :: rest =>
    if e = 'e' || e = 'E' then
      let (negative, rest) :=
        match rest with
        | '-' :: more => (true, more)
        | '+' :: more => (false, more)
        | more => (false, more)
      match rest.takeWhile isDigit with
      | [] => none
      | digits =>
        let n : Int := Text.Digit.number digits
        some (if negative then -n else n, rest.dropWhile isDigit)
    else none
  | [] => none

/-- The digits of a whole number without leading zeros, and the rest. -/
def wholeDigits? (t : Text) : Option (Text × Text) :=
  match t with
  | '0' :: rest => some (['0'], rest)
  | _ =>
    match t.takeWhile isDigit with
    | [] => none
    | digits => some (digits, t.dropWhile isDigit)

/-- A number without its sign. -/
def magnitude (negative : Bool) (t : Text) : Except ReadFault (Json CodePoint × Text) :=
  match wholeDigits? t with
  | none => .error .malformed
  | some (whole, rest) =>
    match fraction? rest, exponent? ((fraction? rest).elim rest (·.2)) with
    | none, none =>
      if Text.Digit.longest < whole.length then .error .tooLong
      else
        let n : Int := Text.Digit.number whole
        .ok (.int (if negative then -n else n), rest)
    | fraction, exponent =>
      let places := fraction.elim [] (·.1)
      let power := exponent.elim 0 (·.1)
      let rest := exponent.elim (fraction.elim rest (·.2)) (·.2)
      .ok (.float (Binary64.ofDecimal negative (Text.Digit.number (whole ++ places))
        (power - places.length)), rest)

/-- The named values, by their spelling. -/
def constants : List (Text × Json CodePoint) := [
  ("null".toList, .null), ("true".toList, .bool true), ("false".toList, .bool false),
  ("NaN".toList, .float .undefined), ("Infinity".toList, .float (.infinite false)),
  ("-Infinity".toList, .float (.infinite true))]

/-- The value that starts with neither a quote nor a bracket. -/
def simple (t : Text) : Except ReadFault (Json CodePoint × Text) :=
  match constants.find? fun (name, _) => name.isPrefixOf t with
  | some (name, value) => .ok (value, t.drop name.length)
  | none =>
    match t with
    | '-' :: rest => magnitude true rest
    | _ => magnitude false t

mutual

/-- The value a text begins with. -/
def value : Nat → Text → Except ReadFault (Json CodePoint × Text)
  | 0, _ => .error .malformed
  | bound + 1, t =>
    match t with
    | '"' :: rest => do
      let (s, left) ← quoted rest
      return (.string s, left)
    | '[' :: rest =>
      match skipSpace rest with
      | ']' :: left => .ok (.list [], left)
      | more => do
        let (items, left) ← items bound more
        return (.list items, left)
    | '\x7b' :: rest =>
      match skipSpace rest with
      | '\x7d' :: left => .ok (.table [], left)
      | more => do
        let (entries, left) ← entries bound [] more
        return (.table entries, left)
    | _ => simple t

/-- The items of a list, up to and with its closing bracket. -/
def items : Nat → Text → Except ReadFault (List (Json CodePoint) × Text)
  | 0, _ => .error .malformed
  | bound + 1, t => do
    let (first, left) ← value bound t
    match skipSpace left with
    | ']' :: rest => return ([first], rest)
    | ',' :: rest =>
      let (others, left) ← items bound (skipSpace rest)
      return (first :: others, left)
    | _ => .error .malformed

/-- The entries of a table, up to and with its closing brace, added to those before them. -/
def entries : Nat → List (List CodePoint × Json CodePoint) → Text →
    Except ReadFault (List (List CodePoint × Json CodePoint) × Text)
  | 0, _, _ => .error .malformed
  | bound + 1, before, t =>
    match t with
    | '"' :: rest => do
      let (key, left) ← quoted rest
      match skipSpace left with
      | ':' :: rest =>
        let (v, left) ← value bound (skipSpace rest)
        let known := Entries.put key v before
        match skipSpace left with
        | '\x7d' :: rest => return (known, rest)
        | ',' :: rest => entries bound known (skipSpace rest)
        | _ => .error .malformed
      | _ => .error .malformed
    | _ => .error .malformed

end

/-- The value a text writes. -/
def read (t : Text) : Except ReadFault (Json CodePoint) := do
  let (v, left) ← value (t.length + 1) (skipSpace t)
  if (skipSpace left).isEmpty then return v else .error .malformed

end Asciidoc.Json
