import Asciidoc.BlockAttributes
import Asciidoc.Element.Basic
import Asciidoc.Rules
import Asciidoc.Text.Quoted

/-!
# The reader's place in a document

Between two blocks the reader of blocks knows the lines not read yet, the attribute entries
seen, and what the lines before the next block have said about it. `Cursor` is that knowledge,
with the notices and faults met on the way.

A notice is something worth telling that changes nothing. A fault means that the document
cannot be read; the reader goes on past it, and the one who asked for the document refuses it on
account of its first fault. Notices and faults are kept in one list of remarks, in the order in
which they were met.
-/

namespace Asciidoc

/-- Something worth telling about a document that was read. -/
inductive Notice where
  /-- A block of blocks was still open at the end. -/
  | unclosedBlock (delimiter : Text)
  /-- A block of lines was still open at the end. -/
  | unclosedLines (delimiter : Text)
  /-- A table was still open at the end. -/
  | unclosedTable (line : Int)
  /-- The last cells of a table did not fill a row. -/
  | incompleteRow (cells : Nat) (line : Int)
deriving DecidableEq, Repr

/-- The wording of a notice. -/
def Notice.message : Notice → String
  | .unclosedBlock delimiter =>
    s!"Unterminated delimited block {String.ofList (Text.Quoted.encode delimiter)} ends at end of input"
  | .unclosedLines delimiter =>
    s!"Unterminated verbatim block {String.ofList (Text.Quoted.encode delimiter)} ends at end of input"
  | .unclosedTable line => s!"Unterminated table starting on line {line}"
  | .incompleteRow cells line =>
    s!"Dropping {cells} cell(s) of an incomplete row in table on line {line}"

/-- Why a document cannot be read. -/
inductive Fault where
  /-- The comment marker is not a text. -/
  | markerNotText
  /-- A text stands where the positional values of a block go. -/
  | positionalText
  /-- A number of columns has more digits than can be read. -/
  | numeralTooLong
deriving DecidableEq, Repr

/-- A place between two lines of a document. -/
structure Place where
  /-- The lines not read yet. -/
  unread : List Token
  /-- The attribute entries seen. -/
  attributes : List (Text × Text) := []
  /-- What has been said about the next block. -/
  pending : BlockAttributes := {}
deriving DecidableEq, Repr

/-- What was met on the way. -/
inductive Remark where
  /-- A notice. -/
  | notice (n : Notice)
  /-- A fault, and the place at which it was met. -/
  | fault (f : Fault) (place : Place)
deriving DecidableEq, Repr

/-- The notice a remark is, if it is one. -/
def Remark.notice? : Remark → Option Notice
  | .notice n => some n
  | .fault _ _ => none

/-- The fault a remark is, if it is one. -/
def Remark.fault? : Remark → Option (Fault × Place)
  | .notice _ => none
  | .fault f place => some (f, place)

/-- A remark met at another place. -/
def Remark.movedTo (place : Place) : Remark → Remark
  | .notice n => .notice n
  | .fault f _ => .fault f place

/-- The reader's place in a document. -/
structure Cursor extends Place where
  /-- The remarks so far. -/
  remarks : List Remark := []
deriving DecidableEq, Repr

namespace Cursor

/-- The number of lines not read yet. -/
def size (c : Cursor) : Nat := c.unread.length

/-- The place before other unread lines. -/
def moveTo (c : Cursor) (unread : List Token) : Cursor := { c with unread := unread }

/-- Nothing said about the next block. -/
def clearPending (c : Cursor) : Cursor := { c with pending := {} }

/-- One more notice. -/
def notice (c : Cursor) (n : Notice) : Cursor := { c with remarks := c.remarks ++ [.notice n] }

/-- More remarks, made at this place. -/
def remark (c : Cursor) (remarks : List Remark) : Cursor :=
  { c with remarks := c.remarks ++ remarks.map (·.movedTo c.toPlace) }

/-- The first fault. -/
def fault? (c : Cursor) : Option (Fault × Place) := c.remarks.findSome? Remark.fault?

/-- The notices before the first fault. -/
def notices (c : Cursor) : List Notice :=
  (c.remarks.takeWhile (·.fault?.isNone)).filterMap Remark.notice?

/-- Past blank lines and single-line comments. -/
def skipBlank (c : Cursor) : Cursor := c.moveTo (c.unread.dropWhile Token.isSkipped)

/-- Takes in an attribute entry. -/
def record (c : Cursor) (name value : Text) (unset : Bool) : Cursor :=
  { c with
    attributes :=
      if unset then Entries.erase name c.attributes else Entries.put name value c.attributes }

/-- Takes in the line of attributes of the next block that was just read; a fault is met before
that line. -/
def addPending (c : Cursor) (t : Token) : Cursor :=
  let added := c.pending.add t.content
  let place : Place := ⟨t :: c.unread, c.attributes, added.attributes⟩
  { c with
    pending := added.attributes
    remarks := c.remarks ++ (if added.conflict then [.fault .positionalText place] else []) }

/-- Names a value of the next block. -/
def namePending (c : Cursor) (key value : Text) : Cursor :=
  { c with pending := c.pending.name key value }

theorem size_skipBlank_le (c : Cursor) : c.skipBlank.size ≤ c.size :=
  (List.dropWhile_suffix _).length_le

/-- The lines after the next one are fewer. -/
theorem length_lt_size {c : Cursor} {t : Token} {rest : List Token} (h : c.unread = t :: rest) :
    rest.length < c.size := by
  rw [size, h]
  exact Nat.lt_succ_self _

/-- The lines after the next one that is neither blank nor a comment are fewer. -/
theorem length_lt_of_skipBlank {c : Cursor} {t : Token} {rest : List Token}
    (h : c.skipBlank.unread = t :: rest) : rest.length < c.size :=
  Nat.lt_of_lt_of_le (length_lt_size h) c.size_skipBlank_le

@[simp] theorem size_moveTo (c : Cursor) (unread : List Token) :
    (c.moveTo unread).size = unread.length := rfl

@[simp] theorem size_clearPending (c : Cursor) : c.clearPending.size = c.size := rfl

@[simp] theorem size_notice (c : Cursor) (n : Notice) : (c.notice n).size = c.size := rfl

@[simp] theorem size_remark (c : Cursor) (remarks : List Remark) :
    (c.remark remarks).size = c.size := rfl

@[simp] theorem size_record (c : Cursor) (name value : Text) (unset : Bool) :
    (c.record name value unset).size = c.size := rfl

@[simp] theorem size_addPending (c : Cursor) (t : Token) : (c.addPending t).size = c.size := rfl

@[simp] theorem size_namePending (c : Cursor) (key value : Text) :
    (c.namePending key value).size = c.size := rfl

end Cursor

/-- What reading a part of a document gives: the part's value, and a place with at most as many
unread lines as before. -/
structure Reached (bound : Nat) (α : Type) where
  /-- What was read. -/
  value : α
  /-- The place after it. -/
  cursor : Cursor
  /-- No line comes back. -/
  within : cursor.size ≤ bound

/-- What was read, seen from a place with more unread lines. -/
def Reached.widen {α : Type} {n m : Nat} (r : Reached n α) (h : n ≤ m) : Reached m α :=
  ⟨r.value, r.cursor, Nat.le_trans r.within h⟩

/-- A function of what was read. -/
def Reached.map {α β : Type} {n : Nat} (f : α → β) (r : Reached n α) : Reached n β :=
  ⟨f r.value, r.cursor, r.within⟩

end Asciidoc
