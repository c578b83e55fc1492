import Asciidoc.Node.Basic
import Asciidoc.Span.Source

/-!
# Checking the spans of a tree

A tree is consistent with a text if every range is ordered, lies in the text and is that of its
location; if what a node says it covers is what stands there; if a node with children starts
where the first of them starts and ends where the last ends; and if children lie inside their
parent one after the other. Depths start at one, and pieces of text have no children.

`Node.violations?` lists all that is wrong, `Node.validate` stops at the first. Neither can judge
a location on a line that the text does not have, unless the range of the node is wrong anyway, nor
go on once something wrong is to be told with a number of more digits than are written
(`Violation.isTold`). What is said of a node begins with its range, but the numbers of a range in
the text are never too long: no text has that many code points.
-/

namespace Asciidoc

/-- Something wrong with a tree. -/
inductive Violation where
  /-- A range that is not ordered or not inside the text. -/
  | outsideText (tag : String) (range : Range) (length : Nat)
  /-- A range that is not that of the location. -/
  | otherRange (tag : String) (range : Range) (loc : Location)
  /-- A source text that is not what stands there. -/
  | otherText (tag : String) (range : Range)
  /-- A node that does not start and end with its children. -/
  | otherChildren (tag : String) (range : Range)
  /-- A child outside its parent. -/
  | outsideParent (tag : String) (range : Range) (parent : String)
  /-- A child that starts before the end of the ones before it. -/
  | overlap (tag : String) (range : Range)
  /-- A depth below one. -/
  | depth (range : Range) (depth : Int)
  /-- A piece of text with children. -/
  | children (range : Range)
deriving DecidableEq, Repr

/-- The wording of a violation. -/
def Violation.message : Violation → Text
  | .outsideText tag range length =>
    tag.toList ++ ' ' :: range.shown ++ ": range outside source text of length ".toList
      ++ Text.Decimal.ofNat length
  | .otherRange tag range loc =>
    tag.toList ++ ' ' :: range.shown ++ ": range does not match loc ".toList ++ loc.shown
  | .otherText tag range =>
    tag.toList ++ ' ' :: range.shown ++ ": raw does not match source slice".toList
  | .otherChildren tag range =>
    tag.toList ++ ' ' :: range.shown ++ ": span differs from its children".toList
  | .outsideParent tag range parent =>
    tag.toList ++ ' ' :: range.shown ++ ": outside parent ".toList ++ parent.toList
  | .overlap tag range =>
    tag.toList ++ ' ' :: range.shown ++ ": overlaps its previous sibling".toList
  | .depth range given =>
    "Header ".toList ++ range.shown ++ ": invalid depth ".toList ++ Text.Decimal.ofInt given
  | .children range => "Str ".toList ++ range.shown ++ ": Str nodes cannot have children".toList

/-- The numbers that a violation is told with, but for the length of the text. -/
def Violation.numbers : Violation → List Int
  | .otherRange _ range loc => range.numbers ++ loc.numbers
  | .depth range given => range.numbers ++ [given]
  | .outsideText _ range _ | .otherText _ range | .otherChildren _ range
  | .outsideParent _ range _ | .overlap _ range | .children range => range.numbers

/-- Whether a number can be written in what is said of a text. One that is no offset in the text may
have too many digits. -/
def Source.writes (s : Source) (k : Int) : Bool :=
  (0 ≤ k && k ≤ s.text.length) || (Text.Decimal.ofNat k.natAbs).length ≤ Text.Digit.longest

/-- Whether a violation can be told: all its numbers can be written. -/
def Violation.isTold (s : Source) (v : Violation) : Bool := v.numbers.all s.writes

/-- Why a tree cannot be judged. -/
inductive JudgeFault where
  /-- A location is on a line that the text does not have. -/
  | noSuchLine
  /-- Something is wrong, and a number in it is too long to be told. -/
  | numberTooLong
deriving DecidableEq, Repr

/-- Why a tree is not found valid. -/
inductive CheckFault where
  /-- It is wrong. -/
  | violation (v : Violation)
  /-- It cannot be judged. -/
  | unjudged (f : JudgeFault)
deriving DecidableEq, Repr

namespace Node

variable {κ : Type} [DecidableEq κ] [CodePoints κ]

/-- What is wrong with the fields of a kind. -/
def kindViolations (n : Node (Json κ)) : List Violation :=
  match n.kind with
  | .header depth => if depth < 1 then [.depth n.range depth] else []
  | .str _ => if n.children.isEmpty then [] else [.children n.range]
  | _ => []

/-- What is wrong with where a node stands, or none if that cannot be judged. -/
def spanViolations? (s : Source) (n : Node (Json κ)) : Option (List Violation) :=
  if ¬(0 ≤ n.range.start ∧ n.range.start ≤ n.range.stop ∧ n.range.stop ≤ s.text.length) then
    some [.outsideText n.name n.range s.text.length]
  else
    (s.range? n.loc).map fun range =>
      (if range = n.range then [] else [.otherRange n.name n.range n.loc])
        ++ (match n.raw with
          | none => []
          | some raw =>
            if !raw.truthy || raw.isText (s.slice n.range) then []
            else [.otherText n.name n.range])

/-- What is wrong with the places of children: one outside its parent, and one that starts
before the furthest end so far. -/
def siblingViolations (parent : Node (Json κ)) (reached : Int) :
    List (Node (Json κ)) → List Violation
  | [] => []
  | child :: rest =>
    (if child.range.start < parent.range.start ∨ parent.range.stop < child.range.stop then
        [.outsideParent child.name child.range parent.name]
      else [])
      ++ (if child.range.start < reached then [.overlap child.name child.range] else [])
      ++ siblingViolations parent (max reached child.range.stop) rest

/-- What is wrong between a node and its children. -/
def familyViolations (n : Node (Json κ)) : List Violation :=
  match n.children.head?, n.children.getLast? with
  | some first, some last =>
    (if n.loc.start ≠ first.loc.start ∨ n.loc.stop ≠ last.loc.stop then
        [.otherChildren n.name n.range]
      else [])
      ++ siblingViolations n n.range.start n.children
  | _, _ => []

/-- Whether the children of a node are to be checked. -/
def isOpen (n : Node (Json κ)) : Bool :=
  match n.kind with
  | .str _ => false
  | _ => true

/-- What is wrong, if all of it can be told. -/
def told (s : Source) (found : List Violation) : Except JudgeFault (List Violation) :=
  if found.all (·.isTold s) then .ok found else .error .numberTooLong

/-- What is wrong with where a node stands, if that can be judged and told. -/
def toldSpan (s : Source) (n : Node (Json κ)) : Except JudgeFault (List Violation) :=
  match n.spanViolations? s with
  | none => .error .noSuchLine
  | some own => told s own

mutual

/-- All that is wrong with a tree, or why it cannot be judged. -/
def violations (s : Source) : Node (Json κ) → Except JudgeFault (List Violation)
  | .mk kind loc range raw children => do
    let n := Node.mk kind loc range raw children
    let fields ← told s n.kindViolations
    let own ← n.toldSpan s
    if n.isOpen then
      let family ← told s n.familyViolations
      let below ← violationsAll s children
      return fields ++ own ++ family ++ below
    else return fields ++ own

/-- All that is wrong with trees, or why they cannot be judged. -/
def violationsAll (s : Source) : List (Node (Json κ)) → Except JudgeFault (List Violation)
  | [] => .ok []
  | n :: rest => do
    let first ← n.violations s
    let others ← violationsAll s rest
    return first ++ others

end

/-- All that is wrong with a tree, or none if something cannot be judged. -/
def violations? (s : Source) (n : Node (Json κ)) : Option (List Violation) :=
  (n.violations s).toOption

/-- Fails with the first of some violations, or because it cannot be told. -/
def refuse (s : Source) : List Violation → Except CheckFault Unit
  | [] => .ok ()
  | v :: _ => .error (if v.isTold s then .violation v else .unjudged .numberTooLong)

/-- Fails with the first thing that is wrong with where a node stands, or because that cannot be
judged. -/
def refuseSpan (s : Source) (n : Node (Json κ)) : Except CheckFault Unit :=
  match n.spanViolations? s with
  | none => .error (.unjudged .noSuchLine)
  | some own => refuse s own

mutual

/-- Fails with the first thing that is wrong with a tree. -/
def validate (s : Source) : Node (Json κ) → Except CheckFault Unit
  | .mk kind loc range raw children => do
    let n := Node.mk kind loc range raw children
    refuse s n.kindViolations
    n.refuseSpan s
    if n.isOpen then
      refuse s n.familyViolations
      validateAll s children

/-- Fails with the first thing that is wrong with trees. -/
def validateAll (s : Source) : List (Node (Json κ)) → Except CheckFault Unit
  | [] => .ok ()
  | n :: rest => do
    n.validate s
    validateAll s rest

end

end Node

end Asciidoc
