import Asciidoc.Element.Document
import Asciidoc.Log
import Asciidoc.Node.OfElement
import Asciidoc.Settings.OfTable

/-!
# Converting a text

A text is read as a document under settings, and the document is located in the text. The
content of the text never makes a conversion fail for being unlocatable: what cannot be found is
left out and logged. A conversion is refused when something other than settings is offered as
settings, and when the reader met a fault.

The log holds what the reader noticed, then what was lost, up to a fault.
-/

namespace Asciidoc

open Text

/-- The record of a notice. -/
def Notice.record (n : Notice) : Log.Record := ⟨.debug, .reader, n.message.toList⟩

/-- The record of a loss. -/
def Loss.record (l : Loss) : Log.Record := ⟨.debug, .converter, l.message⟩

/-- What is offered as settings. -/
inductive Offered where
  /-- Settings. -/
  | settings (s : Settings)
  /-- A value of another type. -/
  | other (typeName : Text)

/-- Why a conversion is refused. -/
inductive Refusal where
  /-- No settings were offered. -/
  | notSettings (typeName : Text)
  /-- The document cannot be read or located. -/
  | fault (f : Fault)
deriving DecidableEq, Repr

/-- The wording of a refusal, where it has one of its own. -/
def Refusal.message? : Refusal → Option Text
  | .notSettings typeName =>
    some ("asciidoc converter needs ConverterOptions, got ".toList ++ typeName)
  | .fault _ => none

/-- The result of a conversion and its log. -/
structure Conversion (α : Type) where
  /-- What came of it. -/
  result : Except Refusal α
  /-- The records, in order. -/
  log : List Log.Record

/-- What was located, with what was lost; refused when a marker that is no text was needed. -/
def Conversion.ofLosses {α : Type} (value : α) (losses : List Loss) : Conversion α :=
  let told := (losses.takeWhile (· ≠ .markerNotText)).map Loss.record
  if losses.contains .markerNotText then ⟨.error (.fault .markerNotText), told⟩
  else ⟨.ok value, told⟩

/-- What text is located by under rules. -/
def Rules.locating (rules : Rules) (t : Text) : Locating where
  source := Source.ofText t
  marker := rules.marker
  includeTableHeader := rules.includeTableHeader

/-- The document of an element that was read from a text. -/
def Conversion.ofElement (rules : Rules) (t : Text) (e : Element) : Conversion (Node Text) :=
  let (root, losses) := (rules.locating t).document rules.skipComments e
  Conversion.ofLosses root losses

/-- The nodes of an element in a window of a text. -/
def Conversion.inWindow (rules : Rules) (t : Text) (w : Window) (e : Element) :
    Conversion (List (Node Text)) :=
  let converted := (rules.locating t).convert w e
  Conversion.ofLosses converted.nodes converted.losses

/-- The nodes of sibling elements in a window of a text. -/
def Conversion.allInWindow (rules : Rules) (t : Text) (w : Window) (es : List Element) :
    Conversion (List (Node Text)) :=
  let converted := (rules.locating t).convertAll w none es
  Conversion.ofLosses converted.nodes converted.losses

/-- The conversion of a text under rules. -/
def Conversion.ofText (rules : Rules) (t : Text) : Conversion (Node Text) :=
  let loaded := Element.ofText rules.reading rules.marker t
  let noticed := loaded.notices.map Notice.record
  match loaded.document with
  | .error fault => ⟨.error (.fault fault), noticed⟩
  | .ok document =>
    let converted := Conversion.ofElement rules t document
    ⟨converted.result, noticed ++ converted.log⟩

/-- The conversion of a text under what is offered as settings. -/
def Conversion.offered (given : Offered) (t : Text) : Conversion (Node Text) :=
  match given with
  | .settings s => Conversion.ofText s.rules t
  | .other typeName => ⟨.error (.notSettings typeName), []⟩

end Asciidoc
