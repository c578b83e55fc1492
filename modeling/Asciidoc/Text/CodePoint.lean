import Asciidoc.Text.Quoted

/-!
# Code points of texts from outside

The texts of this library are made of characters. A text of the interchange format may hold
surrogates besides: code points that stand for half of a character, and for nothing without the
other half. They are told apart and are no characters, so no text of characters can stand for such
a text.

What is done with a value of the interchange format does not depend on which of the two its texts
are made of (`CodePoints`): a text of characters is found in it, or made out of it if it has no
surrogates, and a text can be quoted.
-/

namespace Asciidoc

open Text

/-- A code point: a character or a surrogate. -/
inductive CodePoint where
  | char (c : Char)
  /-- The surrogate at a distance from the first. -/
  | surrogate (distance : Fin 0x800)
deriving DecidableEq, Repr

namespace CodePoint

/-- The code point of a number below 0x110000. -/
def ofNat (n : Nat) : CodePoint :=
  if 0xD800 ≤ n && n ≤ 0xDFFF then .surrogate (Fin.ofNat 0x800 (n - 0xD800))
  else .char (Char.ofNat n)

/-- The character that a code point is. -/
def char? : CodePoint → Option Char
  | .char c => some c
  | .surrogate _ => none

/-- The escape that a surrogate is written as. -/
def surrogateEscape (distance : Fin 0x800) : Text := '\\' :: 'u' :: Quoted.hex 4 (0xD800 + distance)

/-- A code point as terminals are shown it. -/
def shown : CodePoint → Text
  | .char c => [c]
  | .surrogate distance => surrogateEscape distance

/-- The text of code points between quotes. -/
def quoted (t : List CodePoint) : Text :=
  let mark := Quoted.mark (t.filterMap char?)
  let escape : CodePoint → Text
    | .char c => Quoted.escape mark c
    | .surrogate distance => surrogateEscape distance
  mark :: t.flatMap escape ++ [mark]

/-- The characters of a text without surrogates. -/
def text? (t : List CodePoint) : Option Text := t.mapM char?

theorem text?_eq_some_iff {t : List CodePoint} {chars : Text} :
    text? t = some chars ↔ t = chars.map .char := by
  induction t generalizing chars with
  | nil => cases chars <;> simp [text?]
  | cons p rest ih =>
    cases p with
    | char c =>
      have hstep : text? (.char c :: rest) = (text? rest).map (c :: ·) := by
        rw [text?, List.mapM_cons, Option.map_eq_bind]
        rfl
      cases chars with
      | nil => simp [hstep]
      | cons d chars => simp [hstep, ih, and_left_comm]
    | surrogate distance => cases chars <;> simp [text?, char?]

end CodePoint

/-- What texts of the interchange format are made of: characters, and perhaps more. -/
class CodePoints (κ : Type) where
  /-- A text of characters. -/
  ofText : Text → List κ
  /-- The characters of a text of nothing else. -/
  text? : List κ → Option Text
  /-- A text between quotes. -/
  quoted : List κ → Text
  /-- A text is made of characters exactly if they make that text. -/
  text?_eq_some_iff : ∀ {t : List κ} {chars : Text}, text? t = some chars ↔ t = ofText chars

instance : CodePoints Char where
  ofText t := t
  text? := some
  quoted := Quoted.encode
  text?_eq_some_iff := Option.some_inj

instance : CodePoints CodePoint where
  ofText t := t.map .char
  text? := CodePoint.text?
  quoted := CodePoint.quoted
  text?_eq_some_iff := CodePoint.text?_eq_some_iff

namespace CodePoints

@[simp] theorem ofText_char (t : Text) : ofText t = t := rfl

variable {κ : Type} [CodePoints κ] {t t' : Text}

@[simp] theorem text?_ofText : text? (ofText t : List κ) = some t := text?_eq_some_iff.mpr rfl

@[simp] theorem ofText_inj : (ofText t : List κ) = ofText t' ↔ t = t' := by
  rw [← text?_eq_some_iff, text?_ofText, Option.some_inj]

end CodePoints

end Asciidoc
