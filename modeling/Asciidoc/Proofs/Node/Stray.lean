import Asciidoc.Proofs.Node.RoundTrip

/-!
# Values that reading does not refuse

Most faults of reading are refusals: they say that the value is wrong, and their wording is of
what the format asks for. The others are not checked for but run into: a child that has no
entries to look in, children that cannot be gone through, and, outside the part of reading that
watches over the location, a number made of a value that has none. They come out as faults of the
operation that failed.

`Stray` says of a value, by what stands where in it, that reading it ends so. What comes before
the stray value in the order of reading has to be in order, since reading stops at its first
fault: the location, the range, the children one after the other, and last the depth. Reading a
text ends in a fault that is no refusal exactly when the text is a table with such a value
(`read_escapes_iff`).
-/

namespace Asciidoc

open Text

variable {κ : Type}

/-! ## Values by what can be made of them -/

/-- A floating-point number without end. -/
def Json.IsInfinite (value : Json κ) : Prop := ∃ negative, value = .float (.infinite negative)

/-- A value of which no number can be made, whatever is in it. -/
inductive Json.IsCountless : Json κ → Prop where
  | null : IsCountless .null
  | list (items : List (Json κ)) : IsCountless (.list items)
  | table (entries : List (List κ × Json κ)) : IsCountless (.table entries)
  | infinite (negative : Bool) : IsCountless (.float (.infinite negative))

/-- A value that can be gone through without meeting something that is no value of the format:
a list, or what is empty. -/
inductive Json.IsWalkable : Json κ → Prop where
  | list (items : List (Json κ)) : IsWalkable (.list items)
  | emptyText : IsWalkable (.string [])
  | emptyTable : IsWalkable (.table [])

/-- A table has a value under a key. -/
def Json.HasField [DecidableEq κ] [CodePoints κ] (table : Json κ) (key : String)
    (value : Json κ) : Prop :=
  ∃ entries, table = .table entries ∧ Json.field? key entries = some value

namespace Node

/-- Whether a fault says that the value is wrong; the others are those of an operation that
the value has not got. -/
def DecodeFault.isRefusal : DecodeFault κ → Bool
  | .childNotTable | .childrenNotList | .number .wrongType | .number .infinite => false
  | _ => true

/-! ## Values out of place -/

section Strays

variable [DecidableEq κ] [CodePoints κ]

/-- A value of a position that is an infinite number, the line or behind it the column. -/
inductive StrayPosition (position : Json κ) : Prop where
  | line {line : Json κ} (hline : position.HasField "line" line) (hstray : line.IsInfinite)
  | column {line column : Json κ} {n : Int} (hline : position.HasField "line" line)
      (hnumber : wholeNumber line = .ok n) (hcolumn : position.HasField "column" column)
      (hstray : column.IsInfinite)

/-- An infinite number in the location of a node; the range is split before it is met. -/
inductive StrayLocation (tag : String) (node : Json κ) : Prop where
  | start {loc range start : Json κ} {both : Json κ × Json κ} (hloc : node.HasField "loc" loc)
      (hrange : node.HasField "range" range) (htwo : twoValues tag range = .ok both)
      (hstart : loc.HasField "start" start) (hstray : StrayPosition start)
  | stop {loc range start stop : Json κ} {both : Json κ × Json κ} {p : Position}
      (hloc : node.HasField "loc" loc) (hrange : node.HasField "range" range)
      (htwo : twoValues tag range = .ok both) (hstart : loc.HasField "start" start)
      (hposition : decodePosition tag start = .ok p) (hstop : loc.HasField "end" stop)
      (hstray : StrayPosition stop)

/-- A number of a range that none can be made of, the first or behind it the second. -/
inductive StrayRange (first second : Json κ) : Prop where
  | first (hstray : first.IsCountless)
  | second {n : Int} (hnumber : wholeNumber first = .ok n) (hstray : second.IsCountless)

/-- A node with a value out of place that reading does not refuse. -/
inductive Stray : Json κ → Prop where
  /-- It is no table. -/
  | notTable {value : Json κ} (hvalue : ∀ entries, value ≠ .table entries) : Stray value
  /-- Its location has an infinite number. -/
  | location {entries : List (List κ × Json κ)} {kind : Kind (Json κ)}
      (hkind : decodeKind entries = .ok kind)
      (hstray : StrayLocation kind.name (.table entries)) : Stray (.table entries)
  /-- Its range has something that is no number. -/
  | range {entries : List (List κ × Json κ)} {kind : Kind (Json κ)} {loc : Location}
      {first second : Json κ} (hkind : decodeKind entries = .ok kind)
      (hspan : decodeSpan kind.name entries = .ok (loc, first, second))
      (hstray : StrayRange first second) : Stray (.table entries)
  /-- What it has for children cannot be gone through. -/
  | children {entries : List (List κ × Json κ)} {value : Json κ}
      {head : Kind (Json κ) × Location × Range × Option (Json κ)}
      (hhead : decodeHead entries = .ok head)
      (hchildren : Json.field? "children" entries = some value)
      (hstray : ¬ value.IsWalkable) : Stray (.table entries)
  /-- One of its children is such a node. -/
  | child {entries : List (List κ × Json κ)} {before after : List (Json κ)} {child : Json κ}
      {head : Kind (Json κ) × Location × Range × Option (Json κ)} {nodes : List (Node (Json κ))}
      (hhead : decodeHead entries = .ok head)
      (hchildren : Json.field? "children" entries = some (.list (before ++ child :: after)))
      (hbefore : decodeAll before = .ok nodes) (hstray : Stray child) : Stray (.table entries)
  /-- It is a title, and its depth is no number. -/
  | depth {entries : List (List κ × Json κ)} {value : Json κ} {level : Int} {loc : Location}
      {range : Range} {raw : Option (Json κ)} {nodes : List (Node (Json κ))}
      (hhead : decodeHead entries = .ok (.header level, loc, range, raw))
      (hchildren : decodeField entries = .ok nodes)
      (hdepth : Json.field? "depth" entries = some value)
      (hstray : value.IsCountless) : Stray (.table entries)

end Strays

/-! ## Faults that come out -/

/-- Reading ends in a fault that is no refusal. -/
def Escapes {α : Type} (result : Except (DecodeFault κ) α) : Prop :=
  ∃ fault, result = .error fault ∧ fault.isRefusal = false

section Escapes

variable {α β : Type}

@[simp] theorem escapes_error (fault : DecodeFault κ) :
    Escapes (.error fault : Except (DecodeFault κ) α) ↔ fault.isRefusal = false := by
  simp [Escapes]

@[simp] theorem not_escapes_ok (a : α) : ¬ Escapes (.ok a : Except (DecodeFault κ) α) := by
  simp [Escapes]

@[simp] theorem not_escapes_pure (a : α) : ¬ Escapes (pure a : Except (DecodeFault κ) α) :=
  not_escapes_ok a

/-- A fault comes out of two steps from the first, or from the second after the first. -/
theorem escapes_bind (x : Except (DecodeFault κ) α) (f : α → Except (DecodeFault κ) β) :
    Escapes (x >>= f) ↔ Escapes x ∨ ∃ a, x = .ok a ∧ Escapes (f a) := by
  cases x <;> simp [bind, Except.bind]

@[simp] theorem escapes_map (x : Except (DecodeFault κ) α) (f : α → β) :
    Escapes (x.map f) ↔ Escapes x := by
  cases x <;> simp [Except.map]

end Escapes

/-! ## Pairs and children -/

/-- A range that is not of two values is refused. -/
@[simp] theorem not_escapes_twoValues (tag : String) (value : Json κ) :
    ¬ Escapes (twoValues tag value) := by
  rw [twoValues.eq_def]
  split <;> simp [DecodeFault.isRefusal]

/-- Children that are no list of values fail if they cannot be gone through. -/
theorem escapes_otherChildren {value : Json κ} (hvalue : ∀ items, value ≠ .list items) :
    Escapes (otherChildren value) ↔ ¬ value.IsWalkable := by
  constructor
  · rintro h (items | _ | _)
    · exact hvalue items rfl
    all_goals simp [otherChildren] at h
  · intro h
    rw [otherChildren.eq_def]
    split
    · exact absurd .emptyText h
    · exact absurd .emptyTable h
    · exact absurd (.list []) h
    all_goals exact ⟨_, rfl, rfl⟩

/-! ## Numbers -/

section Numbers

variable [CodePoints κ]

/-- A value has a number, or it has none for being what it is, or for what is in it. -/
theorem wholeNumber_cases (value : Json κ) :
    (∃ n, wholeNumber value = .ok n) ∨ wholeNumber value = .error .noNumber ∨
      value.IsInfinite ∨ (wholeNumber value = .error .wrongType ∧ value.IsCountless) := by
  cases value with
  | null => exact .inr (.inr (.inr ⟨rfl, .null⟩))
  | bool b => exact .inl ⟨_, rfl⟩
  | int n => exact .inl ⟨_, rfl⟩
  | float x =>
    cases x with
    | infinite negative => exact .inr (.inr (.inl ⟨negative, rfl⟩))
    | _ =>
      simp only [wholeNumber]
      split <;> simp
  | string t =>
    simp only [wholeNumber]
    split <;> simp
  | list items => exact .inr (.inr (.inr ⟨rfl, .list items⟩))
  | table entries => exact .inr (.inr (.inr ⟨rfl, .table entries⟩))

/-- A number that nobody watches over fails on a value of which none can be made. -/
theorem escapes_mapError_wholeNumber {α : Type} (value : Json κ) (f : Int → α) :
    Escapes (((wholeNumber value).map f).mapError .number : Except (DecodeFault κ) α) ↔
      value.IsCountless := by
  constructor
  · intro h
    rcases wholeNumber_cases value with ⟨n, hn⟩ | hnone | ⟨negative, rfl⟩ | ⟨-, hcountless⟩
    · simp [hn, Except.map, Except.mapError] at h
    · simp [hnone, Except.map, Except.mapError, DecodeFault.isRefusal] at h
    · exact .infinite negative
    · exact hcountless
  · rintro (_ | _ | _ | _) <;> exact ⟨_, rfl, rfl⟩

theorem escapes_number (value : Json κ) :
    Escapes ((wholeNumber value).mapError .number : Except (DecodeFault κ) Int) ↔
      value.IsCountless := by
  have hmap : (wholeNumber value).map id = wholeNumber value := by
    cases wholeNumber value <;> rfl
  rw [← escapes_mapError_wholeNumber value id, hmap]

theorem mapError_eq_ok {ε ε' α : Type} {x : Except ε α} {f : ε → ε'} {a : α} :
    x.mapError f = .ok a ↔ x = .ok a := by
  cases x <;> simp [Except.mapError]

/-- A number of a location fails on an infinite value only; what else has none is refused. -/
theorem escapes_spanNumber (tag : String) (value : Json κ) :
    Escapes (spanNumber tag value) ↔ value.IsInfinite := by
  constructor
  · intro h
    rcases wholeNumber_cases value with ⟨n, hn⟩ | hnone | hinfinite | ⟨hwrong, -⟩
    · simp [spanNumber, hn] at h
    · simp [spanNumber, hnone, DecodeFault.isRefusal] at h
    · exact hinfinite
    · simp [spanNumber, hwrong, DecodeFault.isRefusal] at h
  · rintro ⟨negative, rfl⟩
    exact ⟨_, rfl, rfl⟩

theorem spanNumber_eq_ok {tag : String} {value : Json κ} {n : Int} :
    spanNumber tag value = .ok n ↔ wholeNumber value = .ok n := by
  rw [spanNumber]
  split <;> simp_all

end Numbers

/-! ## The location -/

variable [DecidableEq κ] [CodePoints κ]

/-- A key that is missing is refused. -/
@[simp] theorem not_escapes_spanField (tag key : String) (value : Json κ) :
    ¬ Escapes (spanField tag key value) := by
  rw [spanField.eq_def]
  split
  · split <;> simp [DecodeFault.isRefusal]
  · simp [DecodeFault.isRefusal]

theorem spanField_eq_ok {tag key : String} {table value : Json κ} :
    spanField tag key table = .ok value ↔ table.HasField key value := by
  cases table with
  | table entries =>
    simp only [spanField, Json.HasField, Json.table.injEq, exists_eq_left']
    split <;> simp_all
  | _ => simp [spanField, Json.HasField]

theorem escapes_decodePosition (tag : String) (position : Json κ) :
    Escapes (decodePosition tag position) ↔ StrayPosition position := by
  simp only [decodePosition, escapes_bind, not_escapes_spanField, spanField_eq_ok,
    escapes_spanNumber, spanNumber_eq_ok, not_escapes_pure, false_or, and_false, exists_false,
    or_false]
  constructor
  · rintro ⟨line, hline, hstray | ⟨n, hnumber, column, hcolumn, hstray⟩⟩
    · exact .line hline hstray
    · exact .column hline hnumber hcolumn hstray
  · rintro (⟨hline, hstray⟩ | ⟨hline, hnumber, hcolumn, hstray⟩)
    · exact ⟨_, hline, .inl hstray⟩
    · exact ⟨_, hline, .inr ⟨_, hnumber, _, hcolumn, hstray⟩⟩

theorem escapes_decodeSpan (tag : String) (entries : List (List κ × Json κ)) :
    Escapes (decodeSpan tag entries) ↔ StrayLocation tag (.table entries) := by
  simp only [decodeSpan, escapes_bind, not_escapes_spanField, spanField_eq_ok,
    not_escapes_twoValues, escapes_decodePosition, not_escapes_pure, false_or, and_false,
    exists_false, or_false]
  constructor
  · rintro ⟨loc, hloc, range, hrange, both, htwo, start, hstart, hstray |
      ⟨p, hposition, stop, hstop, hstray⟩⟩
    · exact .start hloc hrange htwo hstart hstray
    · exact .stop hloc hrange htwo hstart hposition hstop hstray
  · rintro (⟨hloc, hrange, htwo, hstart, hstray⟩ |
      ⟨hloc, hrange, htwo, hstart, hposition, hstop, hstray⟩)
    · exact ⟨_, hloc, _, hrange, _, htwo, _, hstart, .inl hstray⟩
    · exact ⟨_, hloc, _, hrange, _, htwo, _, hstart, .inr ⟨_, hposition, _, hstop, hstray⟩⟩

/-! ## The node without its children -/

/-- A tag that is none is refused. -/
@[simp] theorem not_escapes_decodeKind (entries : List (List κ × Json κ)) :
    ¬ Escapes (decodeKind entries) := by
  rw [decodeKind]
  split <;> simp [DecodeFault.isRefusal]

theorem escapes_decodeHead (entries : List (List κ × Json κ)) :
    Escapes (decodeHead entries) ↔ ∃ kind, decodeKind entries = .ok kind ∧
      (StrayLocation kind.name (.table entries) ∨ ∃ loc first second,
        decodeSpan kind.name entries = .ok (loc, first, second) ∧ StrayRange first second) := by
  simp only [decodeHead, escapes_bind, not_escapes_decodeKind, escapes_decodeSpan,
    escapes_number, mapError_eq_ok, not_escapes_pure, false_or, and_false, exists_false, or_false]
  refine exists_congr fun kind => and_congr_right fun _ => or_congr_right ?_
  constructor
  · rintro ⟨⟨loc, first, second⟩, hspan, hstray | ⟨n, hnumber, hstray⟩⟩
    · exact ⟨loc, first, second, hspan, .first hstray⟩
    · exact ⟨loc, first, second, hspan, .second hnumber hstray⟩
  · rintro ⟨loc, first, second, hspan, hstray | ⟨hnumber, hstray⟩⟩
    · exact ⟨(loc, first, second), hspan, .inl hstray⟩
    · exact ⟨(loc, first, second), hspan, .inr ⟨_, hnumber, hstray⟩⟩

theorem escapes_decodeDepth (entries : List (List κ × Json κ)) (kind : Kind (Json κ)) :
    Escapes (decodeDepth entries kind) ↔ (∃ level, kind = .header level) ∧
      ∃ value, Json.field? "depth" entries = some value ∧ value.IsCountless := by
  cases kind with
  | header level =>
    rw [decodeDepth]
    split
    next hdepth => rw [hdepth]; simp
    next value hdepth => rw [hdepth]; simp [escapes_mapError_wholeNumber]
  | _ => simp [decodeDepth]

/-! ## The children -/

/-- Nodes one after the other fail at the first that fails. -/
theorem escapes_decodeAll (values : List (Json κ)) : Escapes (decodeAll values) ↔
    ∃ before child after nodes, values = before ++ child :: after ∧
      decodeAll before = .ok nodes ∧ Escapes (decode child) := by
  induction values with
  | nil => simp [decodeAll]
  | cons value rest ih =>
    simp only [decodeAll, escapes_bind, not_escapes_pure, ih, and_false, exists_false, or_false]
    constructor
    · rintro (hvalue | ⟨n, hn, before, child, after, nodes, rfl, hbefore, hchild⟩)
      · exact ⟨[], value, rest, [], rfl, rfl, hvalue⟩
      · refine ⟨value :: before, child, after, n :: nodes, rfl, ?_, hchild⟩
        rw [decodeAll, hn, hbefore]
        rfl
    · rintro ⟨before, child, after, nodes, hvalues, hbefore, hchild⟩
      cases before with
      | nil =>
        obtain ⟨rfl, -⟩ := List.cons.inj hvalues
        exact .inl hchild
      | cons first before =>
        obtain ⟨rfl, rfl⟩ := List.cons.inj hvalues
        rw [decodeAll] at hbefore
        obtain ⟨n, hn, hrest⟩ := bind_eq_ok.mp hbefore
        obtain ⟨others, hothers, -⟩ := bind_eq_ok.mp hrest
        exact .inr ⟨n, hn, before, child, after, others, rfl, hothers, hchild⟩

/-- The children of a node fail if they cannot be gone through, or at the first that fails. -/
theorem escapes_decodeField (entries : List (List κ × Json κ)) : Escapes (decodeField entries) ↔
    ∃ value, Json.field? "children" entries = some value ∧ (¬ value.IsWalkable ∨
      ∃ before child after nodes, value = .list (before ++ child :: after) ∧
        decodeAll before = .ok nodes ∧ Escapes (decode child)) := by
  rw [decodeField_eq]
  split
  next hnone => rw [hnone]; simp
  next items hitems =>
    simp only [hitems, Option.some.injEq, exists_eq_left', Json.list.injEq, escapes_decodeAll]
    exact (or_iff_right fun h => h (.list items)).symm
  next value hlist hvalue =>
    simp only [hvalue, Option.some.injEq, exists_eq_left', escapes_map, escapes_otherChildren hlist]
    refine (or_iff_left ?_).symm
    rintro ⟨before, child, after, -, rfl, -⟩
    exact hlist _ rfl

/-! ## Trees -/

/-- A node fails in its head, in its children, or in its depth, in this order. -/
theorem escapes_decode_table (entries : List (List κ × Json κ)) :
    Escapes (decode (.table entries)) ↔ Escapes (decodeHead entries) ∨
      ∃ head, decodeHead entries = .ok head ∧ (Escapes (decodeField entries) ∨
        ∃ nodes, decodeField entries = .ok nodes ∧ Escapes (decodeDepth entries head.1)) := by
  simp only [decode, escapes_bind, not_escapes_pure, and_false, exists_false, or_false]

/-- What a table has under a key is smaller than the table. -/
theorem sizeOf_field?_lt {name : String} {entries : List (List κ × Json κ)} {value : Json κ}
    (h : Json.field? name entries = some value) : sizeOf value < sizeOf entries := by
  rw [Json.field?] at h
  induction entries with
  | nil => cases h
  | cons entry rest ih =>
    obtain ⟨k, v⟩ := entry
    rw [Entries.find?] at h
    split at h
    · obtain rfl := Option.some.inj h
      simp
      omega
    · have := ih h
      simp
      omega

theorem sizeOf_child_lt {entries : List (List κ × Json κ)} {before after : List (Json κ)}
    {child : Json κ}
    (h : Json.field? "children" entries = some (.list (before ++ child :: after))) :
    sizeOf child < sizeOf entries := by
  have hmem : child ∈ before ++ child :: after := by simp
  have hchild := List.sizeOf_lt_of_mem hmem
  have hlist := sizeOf_field?_lt h
  rw [Json.list.sizeOf_spec] at hlist
  omega

/-- A fault that is no refusal comes from a value out of place, however deep it stands. -/
theorem stray_of_escapes (value : Json κ) (h : Escapes (decode value)) : Stray value := by
  match value with
  | .table entries =>
    rcases (escapes_decode_table entries).mp h with
      hhead | ⟨head, hhead, hfield | ⟨nodes, hnodes, hdepth⟩⟩
    · obtain ⟨kind, hkind, hlocation | ⟨loc, first, second, hspan, hrange⟩⟩ :=
        (escapes_decodeHead entries).mp hhead
      · exact .location hkind hlocation
      · exact .range hkind hspan hrange
    · obtain ⟨children, hchildren, hwalk | ⟨before, child, after, nodes, rfl, hbefore, hchild⟩⟩ :=
        (escapes_decodeField entries).mp hfield
      · exact .children hhead hchildren hwalk
      · have hsize := sizeOf_child_lt hchildren
        exact .child hhead hchildren hbefore (stray_of_escapes child hchild)
    · obtain ⟨kind, loc, range, raw⟩ := head
      obtain ⟨⟨level, rfl⟩, value, hvalue, hcountless⟩ :=
        (escapes_decodeDepth entries kind).mp hdepth
      exact .depth hhead hnodes hvalue hcountless
  | .null | .bool _ | .int _ | .float _ | .string _ | .list _ => exact .notTable (by simp)
termination_by sizeOf value
decreasing_by
  rw [Json.table.sizeOf_spec]
  omega

/-- A node with a value out of place is not refused. -/
theorem Stray.escapes {value : Json κ} (h : Stray value) : Escapes (decode value) := by
  induction h with
  | @notTable value hvalue =>
    rw [decode.eq_def]
    split
    next entries => exact absurd rfl (hvalue entries)
    next => exact ⟨_, rfl, rfl⟩
  | @location entries kind hkind hstray =>
    exact (escapes_decode_table entries).mpr (.inl
      ((escapes_decodeHead entries).mpr ⟨kind, hkind, .inl hstray⟩))
  | @range entries kind loc first second hkind hspan hstray =>
    exact (escapes_decode_table entries).mpr (.inl
      ((escapes_decodeHead entries).mpr ⟨kind, hkind, .inr ⟨loc, first, second, hspan, hstray⟩⟩))
  | @children entries value head hhead hchildren hstray =>
    have hfield := (escapes_decodeField entries).mpr ⟨value, hchildren, .inl hstray⟩
    exact (escapes_decode_table entries).mpr (.inr ⟨head, hhead, .inl hfield⟩)
  | @child entries before after child head nodes hhead hchildren hbefore _ ih =>
    have hfield := (escapes_decodeField entries).mpr
      ⟨_, hchildren, .inr ⟨before, child, after, nodes, rfl, hbefore, ih⟩⟩
    exact (escapes_decode_table entries).mpr (.inr ⟨head, hhead, .inl hfield⟩)
  | @depth entries value level loc range raw nodes hhead hnodes hdepth hstray =>
    have hescapes := (escapes_decodeDepth entries (.header level)).mpr
      ⟨⟨level, rfl⟩, value, hdepth, hstray⟩
    exact (escapes_decode_table entries).mpr (.inr ⟨_, hhead, .inr ⟨nodes, hnodes, hescapes⟩⟩)

theorem escapes_decode (value : Json κ) : Escapes (decode value) ↔ Stray value :=
  ⟨stray_of_escapes value, Stray.escapes⟩

/-- A text is read to a tree or refused, but for one case: reading ends in a fault that is no
refusal exactly when the text is a table of the interchange format and, somewhere in it, the first
value that is not in order is one that reading does not watch for. -/
theorem read_escapes_iff (t : Text) :
    (∃ fault, read t = .error fault ∧ fault.isRefusal = false) ↔
      ∃ entries, Json.read t = .ok (.table entries) ∧ Stray (.table entries) := by
  rw [read.eq_def]
  split
  next hread => simp [hread, DecodeFault.isRefusal]
  next hread => simp [hread, DecodeFault.isRefusal]
  next entries hread =>
    simp only [hread, Except.ok.injEq, Json.table.injEq, exists_eq_left']
    exact escapes_decode (.table entries)
  next value hvalue hread =>
    simp only [hread, Except.error.injEq, exists_eq_left', DecodeFault.isRefusal, Except.ok.injEq,
      Bool.true_eq_false, false_iff]
    rintro ⟨entries, rfl, -⟩
    exact hvalue entries rfl

/-- The entries of a document of no text with a number for a child. -/
def numberAsChild : List (Text × Json) :=
  entriesOf .document ⟨⟨1, 0⟩, ⟨1, 0⟩⟩ ⟨0, 0⟩ none [.int 1]

theorem legible_numberAsChild : (Json.table numberAsChild).Legible := by
  refine legible_entriesOf (.mk .document ⟨⟨1, 0⟩, ⟨1, 0⟩⟩ ⟨0, 0⟩ none []) (fun k hk => ?_) ?_
  · have hsmall : k.natAbs < 10 ^ 1 := by
      revert k
      decide
    exact Nat.le_trans (Decimal.length_ofNat_le hsmall) (by decide)
  · have hone : (Decimal.ofNat 1).length ≤ 0 + 1 := Decimal.length_ofNat_le (by decide)
    exact ⟨Nat.le_trans hone (by decide), trivial⟩

/-- The text of such a document is read up to the number, which is then asked for its tag. -/
theorem read_escapes_numberAsChild :
    read (Json.written (layout none true) (.table numberAsChild)) = .error .childNotTable ∧
      ∃ entries, Json.read (Json.written (layout none true) (.table numberAsChild))
        = .ok (.table entries) ∧ Stray (.table entries) := by
  have hfault : read (Json.written (layout none true) (.table numberAsChild))
      = .error .childNotTable := by
    rw [read, Json.read_written _ legible_numberAsChild]
    rfl
  exact ⟨hfault, (read_escapes_iff _).mp ⟨_, hfault, rfl⟩⟩

end Node

end Asciidoc
