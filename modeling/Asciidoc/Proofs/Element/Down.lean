import Asciidoc.Element.Cursor
import Asciidoc.Proofs.Element.Hints

/-!
# Elements further down

`Element.down k` is an element that stands `k` lines further down: every hint in it is greater by
`k`, but for those of documents, which always say that they start on line 1. Lines, places and
what is remarked on them are put further down in the same way.
-/

namespace Asciidoc

variable {k : Int}

/-- A hint at a line further down. -/
def Hint.down (k : Int) (line : Hint) : Hint := line.map (· + k)

@[simp] theorem Hint.down_some (k n : Int) : Hint.down k (some n) = some (n + k) := rfl

@[simp] theorem Hint.down_none (k : Int) : Hint.down k none = none := rfl

theorem Hint.down_eq_some_iff {line : Hint} {n : Int} :
    Hint.down k line = some (n + k) ↔ line = some n := by
  cases line with
  | none => simp
  | some m =>
    rw [Hint.down_some, Option.some.injEq, Option.some.injEq]
    omega

/-- A title further down. -/
def Title.down (k : Int) (title : Title) : Title := { title with line := Hint.down k title.line }

namespace Element

mutual

/-- An element further down. -/
def down (k : Int) : Element → Element
  | .document line top blocks attributes source =>
    .document line (top.map (·.down k)) (downAll k blocks) attributes source
  | .header title => .header (title.down k)
  | .sectionBlock line title level blocks =>
    .sectionBlock (Hint.down k line) title level (downAll k blocks)
  | .paragraph line lines => .paragraph (Hint.down k line) lines
  | .literal line lines => .literal (Hint.down k line) lines
  | .listing line lines language => .listing (Hint.down k line) lines language
  | .unorderedList line marker items => .unorderedList (Hint.down k line) marker (downAll k items)
  | .orderedList line marker items => .orderedList (Hint.down k line) marker (downAll k items)
  | .item line text checked blocks => .item (Hint.down k line) text checked (downAll k blocks)
  | .descriptionList line delimiter entries =>
    .descriptionList (Hint.down k line) delimiter (downEntries k entries)
  | .quoteBlock line blocks => .quoteBlock (Hint.down k line) (downAll k blocks)
  | .compound line kind blocks => .compound (Hint.down k line) kind (downAll k blocks)
  | .table line headerRows bodyRows =>
    .table (Hint.down k line) (downRows k headerRows) (downRows k bodyRows)
  | .cell line text style inner columns =>
    .cell (Hint.down k line) text style (downOption k inner) columns
  | .unsupported line kind => .unsupported (Hint.down k line) kind
  | .bare line => .bare (Hint.down k line)

/-- Elements further down. -/
def downAll (k : Int) : List Element → List Element
  | [] => []
  | e :: rest => e.down k :: downAll k rest

/-- An element further down, if there is one. -/
def downOption (k : Int) : Option Element → Option Element
  | none => none
  | some e => some (e.down k)

/-- Entries further down. -/
def downEntries (k : Int) : List (Entry Element) → List (Entry Element)
  | [] => []
  | ⟨terms, description⟩ :: rest => ⟨downAll k terms, downOption k description⟩ :: downEntries k rest

/-- Rows further down. -/
def downRows (k : Int) : List (List Element) → List (List Element)
  | [] => []
  | row :: rest => downAll k row :: downRows k rest

end

end Element

/-- An entry further down. -/
def Entry.down (k : Int) (e : Entry Element) : Entry Element :=
  ⟨e.terms.map (Element.down k), e.description.map (Element.down k)⟩

theorem Entry.items_down (entry : Entry Element) :
    (entry.down k).items = entry.items.map (Element.down k) := by
  obtain ⟨terms, description⟩ := entry
  rw [Entry.down, Entry.items, Entry.items, List.map_append]
  cases description <;> rfl

namespace Element

@[simp] theorem downAll_eq_map (k : Int) (es : List Element) : downAll k es = es.map (down k) := by
  induction es with
  | nil => rfl
  | cons e rest ih => rw [downAll, ih, List.map_cons]

@[simp] theorem downOption_eq_map (k : Int) (e : Option Element) :
    downOption k e = e.map (down k) := by
  cases e <;> rfl

@[simp] theorem downEntries_eq_map (k : Int) (entries : List (Entry Element)) :
    downEntries k entries = entries.map (Entry.down k) := by
  induction entries with
  | nil => rfl
  | cons entry rest ih =>
    rw [downEntries, ih, downAll_eq_map, downOption_eq_map, List.map_cons, Entry.down]

@[simp] theorem downRows_eq_map (k : Int) (rows : List (List Element)) :
    downRows k rows = rows.map (List.map (down k)) := by
  induction rows with
  | nil => rfl
  | cons row rest ih => rw [downRows, ih, downAll_eq_map, List.map_cons]

/-- A document with another source recorded. -/
def withSource (source : Text) : Element → Element
  | .document line top blocks attributes _ => .document line top blocks attributes source
  | e => e

/-- Only documents stay on their line. -/
theorem line_down {e : Element} (h : e.isDocument = false) :
    (e.down k).line = Hint.down k e.line := by
  cases e with
  | document => cases h
  | _ => rfl

theorem isDocument_down (e : Element) : (e.down k).isDocument = e.isDocument := by
  cases e <;> rfl

end Element

/-! ## Lines and places -/

/-- A line further down. -/
def Token.down (k : Int) (t : Token) : Token := { t with line := t.line + k }

/-- A notice of something further down. -/
def Notice.down (k : Int) : Notice → Notice
  | .unclosedTable line => .unclosedTable (line + k)
  | .incompleteRow cells line => .incompleteRow cells (line + k)
  | .unclosedBlock delimiter => .unclosedBlock delimiter
  | .unclosedLines delimiter => .unclosedLines delimiter

/-- A place further down. -/
def Place.down (k : Int) (place : Place) : Place :=
  { place with unread := place.unread.map (Token.down k) }

/-- What was met further down. -/
def Remark.down (k : Int) : Remark → Remark
  | .notice n => .notice (n.down k)
  | .fault f place => .fault f (place.down k)

/-- The reader's place further down. -/
def Cursor.down (k : Int) (c : Cursor) : Cursor :=
  ⟨c.toPlace.down k, c.remarks.map (Remark.down k)⟩

end Asciidoc
