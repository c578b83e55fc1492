import Asciidoc.Node.Interchange
import Asciidoc.Proofs.Json.RoundTrip
import Asciidoc.Proofs.Node.Placed
import Asciidoc.Proofs.Node.InOrder

/-!
# Trees come back from the interchange format

A tree whose pieces of text and listings have no children, as every converted tree is, is decoded
from its encoding (`decode_encode`). The children of such a leaf are the only thing that the
encoding leaves out. That does not depend on what texts are made of.

Between the two stands the text of the format. Whoever writes and reads it, the tree comes back
if the one value that encodes it does (`serialized_round_trip`); and what is written and read here does
bring it back in every layout, as long as the numbers in the tree have no more digits than are
read. What is read here may have surrogates, so it comes back among the trees of code points
(`Node.wide`).
-/

namespace Asciidoc

open Text

namespace Node

section Encoding

variable {κ : Type} [DecidableEq κ] [CodePoints κ]

/-! ## Entries of a node -/

/-- The entries of a node around children that are encoded. -/
def entriesOf (kind : Kind (Json κ)) (loc : Location) (range : Range) (raw : Option (Json κ))
    (children : List (Json κ)) : List (List κ × Json κ) :=
  (("type", Json.ofString kind.name) :: encodeKind kind
      ++ (if kind.isLeaf then [] else [("children", Json.list children)])
      ++ [("loc", encodeLocation loc), ("range", .list [.int range.start, .int range.stop]),
        ("raw", .orNull raw)]).map fun (key, value) => (CodePoints.ofText key.toList, value)

omit [DecidableEq κ] in
theorem encode_eq (n : Node (Json κ)) :
    n.encode = .table (entriesOf n.kind n.loc n.range n.raw (encodeAll n.children)) := by
  cases n
  rfl

section Entries

variable (kind : Kind (Json κ)) (loc : Location) (range : Range) (raw : Option (Json κ))
  (children : List (Json κ))

theorem field?_type : Json.field? "type" (entriesOf kind loc range raw children)
    = some (.ofString kind.name) :=
  if_pos rfl

theorem field?_loc : Json.field? "loc" (entriesOf kind loc range raw children)
    = some (encodeLocation loc) := by
  cases kind <;> simp [entriesOf, encodeKind, Json.field?, Entries.find?, Kind.isLeaf]

theorem field?_range : Json.field? "range" (entriesOf kind loc range raw children)
    = some (.list [.int range.start, .int range.stop]) := by
  cases kind <;> simp [entriesOf, encodeKind, Json.field?, Entries.find?, Kind.isLeaf]

theorem field?_children : Json.field? "children" (entriesOf kind loc range raw children)
    = if kind.isLeaf then none else some (.list children) := by
  cases kind <;> simp [entriesOf, encodeKind, Json.field?, Entries.find?, Kind.isLeaf]

theorem field?_raw : Json.field? "raw" (entriesOf kind loc range raw children)
    = some (.orNull raw) := by
  cases kind <;> simp [entriesOf, encodeKind, Json.field?, Entries.find?, Kind.isLeaf]

theorem decodePosition_encodePosition (tag : String) (p : Position) :
    decodePosition tag (encodePosition p : Json κ) = .ok p := by
  simp [decodePosition, encodePosition, Json.fields, spanField, Json.field?, Entries.find?,
    spanNumber, wholeNumber, bind, Except.bind, pure, Except.pure]

theorem spanField_start (tag : String) (l : Location) :
    spanField tag "start" (encodeLocation l : Json κ) = .ok (encodePosition l.start) := by
  simp [spanField, encodeLocation, Json.fields, Json.field?, Entries.find?]

theorem spanField_end (tag : String) (l : Location) :
    spanField tag "end" (encodeLocation l : Json κ) = .ok (encodePosition l.stop) := by
  simp [spanField, encodeLocation, Json.fields, Json.field?, Entries.find?]

/-- The span of a node is decoded from its entries. -/
theorem decodeSpan_entriesOf (tag : String) :
    decodeSpan tag (entriesOf kind loc range raw children)
      = .ok (loc, .int range.start, .int range.stop) := by
  have hloc : spanField tag "loc" (.table (entriesOf kind loc range raw children))
      = .ok (encodeLocation loc) := by rw [spanField, field?_loc]
  have hrange : spanField tag "range" (.table (entriesOf kind loc range raw children))
      = .ok (.list [.int range.start, .int range.stop]) := by rw [spanField, field?_range]
  simp only [decodeSpan, hloc, hrange, bind, Except.bind, twoValues, spanField_start, spanField_end,
    decodePosition_encodePosition]
  rfl

/-- Children that can be gone through are a list, or there are none. -/
theorem decodeField_eq (entries : List (List κ × Json κ)) :
    decodeField entries = match Json.field? "children" entries with
      | none => .ok []
      | some (.list items) => decodeAll items
      | some value => (otherChildren value).map fun _ => [] := by
  induction entries with
  | nil => rfl
  | cons entry rest ih =>
    obtain ⟨key, value⟩ := entry
    by_cases h : key = CodePoints.ofText "children".toList
    · rw [Json.field?, Entries.find?, if_pos h, decodeField.eq_def]
      dsimp only
      rw [if_pos h]
      cases value <;> rfl
    · rw [Json.field?, Entries.find?, if_neg h, decodeField.eq_def]
      dsimp only
      rw [if_neg h, ih, Json.field?]

/-- The children of a node are decoded from its entries; a leaf has none there. -/
theorem decodeField_entriesOf : decodeField (entriesOf kind loc range raw children)
    = if kind.isLeaf then .ok [] else decodeAll children := by
  rw [decodeField_eq, field?_children]
  cases kind.isLeaf <;> rfl

/-- A kind as it is before its depth is decoded. -/
def Kind.undetermined : Kind (Json κ) → Kind (Json κ)
  | .header _ => .header 1
  | kind => kind

theorem decodeDepth_entriesOf :
    decodeDepth (entriesOf kind loc range raw children) kind.undetermined = .ok kind := by
  cases kind with
  | header depth =>
    have hdepth : Json.field? "depth" (entriesOf (.header depth) loc range raw children)
        = some (.int depth) := by
      simp [entriesOf, encodeKind, Json.field?, Entries.find?]
    rw [Kind.undetermined, decodeDepth, hdepth]
    rfl
  | _ => rfl

omit [DecidableEq κ] [CodePoints κ] in
/-- A value that is none of a tree of texts. -/
theorem unlessNull_orNull (t : Option (List κ)) :
    Json.unlessNull (Json.orNull (t.map Json.string)) = t.map Json.string := by
  cases t <;> rfl

/-- The kind of a node of texts is decoded from its entries, up to its depth. -/
theorem decodeKind_entriesOf (kind : Kind (List κ)) :
    decodeKind (entriesOf (kind.map Json.string) loc range raw children)
      = .ok (kind.map Json.string).undetermined := by
  rw [decodeKind, field?_type]
  cases kind with
  | codeBlock lang value =>
    simp [Kind.map, Json.ofString, Json.text?, kindOfTag?, Kind.name, Kind.undetermined, entriesOf,
      encodeKind, Json.field?, Entries.find?, unlessNull_orNull]
  | _ =>
    simp [Kind.map, Json.ofString, Json.text?, kindOfTag?, Kind.name, Kind.undetermined, entriesOf,
      encodeKind, Json.field?, Entries.find?]

/-- All but the children and the depth is decoded from the entries of a node of texts. -/
theorem decodeHead_entriesOf (kind : Kind (List κ)) (raw : Option (List κ)) :
    decodeHead (entriesOf (kind.map Json.string) loc range (raw.map Json.string) children)
      = .ok ((kind.map Json.string).undetermined, loc, range, raw.map Json.string) := by
  rw [decodeHead, decodeKind_entriesOf]
  simp only [bind, Except.bind, decodeSpan_entriesOf, field?_raw]
  rw [Option.bind_some, unlessNull_orNull]
  rfl

end Entries

/-! ## Trees -/

/-- A tree in which pieces of text and listings have no children. -/
def HasBareLeaves {α : Type} (n : Node α) : Prop :=
  ∀ m ∈ n.preorder, m.kind.isLeaf = true → m.children = []

theorem HasBareLeaves.child {α : Type} {n child : Node α} (h : n.HasBareLeaves)
    (hchild : child ∈ n.children) : child.HasBareLeaves :=
  fun m hm => h m (mem_preorder_of_child hchild hm)

theorem HasBareLeaves.map {α β : Type} {n : Node α} (h : n.HasBareLeaves) (f : α → β) :
    (n.map f).HasBareLeaves := by
  intro m hm hleaf
  rw [preorder_map] at hm
  obtain ⟨k, hk, rfl⟩ := List.mem_map.mp hm
  rw [kind_map, Kind.isLeaf_map] at hleaf
  rw [children_map, h k hk hleaf, List.map_nil]

theorem decodeAll_encodeAll {ns : List (Node (Json κ))} (h : ∀ n ∈ ns, decode n.encode = .ok n) :
    decodeAll (encodeAll ns) = .ok ns := by
  induction ns with
  | nil => rfl
  | cons n rest ih =>
    obtain ⟨hn, hrest⟩ := List.forall_mem_cons.mp h
    rw [encodeAll, decodeAll, hn, ih hrest]
    rfl

/-- A tree of texts with bare leaves is decoded from its encoding. -/
theorem decode_encode (n : Node (List κ)) (h : n.HasBareLeaves) :
    decode n.ofTexts.encode = .ok n.ofTexts := by
  induction n using Node.induction with
  | step n ih =>
    have hbelow : decodeAll (encodeAll n.ofTexts.children) = .ok n.ofTexts.children := by
      refine decodeAll_encodeAll fun m hm => ?_
      rw [ofTexts, children_map] at hm
      obtain ⟨child, hchild, rfl⟩ := List.mem_map.mp hm
      exact ih child hchild (h.child hchild)
    have hchildren : decodeField (entriesOf n.ofTexts.kind n.loc n.range n.ofTexts.raw
        (encodeAll n.ofTexts.children)) = .ok n.ofTexts.children := by
      rw [decodeField_entriesOf]
      split
      next hleaf =>
        rw [ofTexts, kind_map, Kind.isLeaf_map] at hleaf
        rw [ofTexts, children_map, h n n.mem_preorder_self hleaf, List.map_nil]
      · exact hbelow
    rw [encode_eq, decode, ofTexts, loc_map, range_map]
    rw [ofTexts] at hchildren
    simp only [hchildren, bind, Except.bind]
    rw [kind_map, raw_map, decodeHead_entriesOf]
    dsimp only
    rw [decodeDepth_entriesOf]
    cases n
    simp [map, pure, Except.pure, raw, children, mapAll_eq, kind, loc, range]

end Encoding

/-! ## Texts -/

theorem legibleAll_encodeAll {ns : List (Node Json)} (h : ∀ n ∈ ns, n.encode.Legible) :
    Json.LegibleAll (encodeAll ns) := by
  induction ns with
  | nil => trivial
  | cons n rest ih =>
    obtain ⟨hn, hrest⟩ := List.forall_mem_cons.mp h
    exact ⟨hn, ih hrest⟩

theorem legible_orNull (t : Option Text) : (Json.orNull (t.map Json.string)).Legible := by
  cases t <;> trivial

/-- The entries of a node can be written and read when its numbers and its children can. -/
theorem legible_entriesOf (n : Node Text)
    (hnumbers : ∀ k ∈ n.numbers, (Decimal.ofNat k.natAbs).length ≤ Digit.longest)
    {children : List Json} (hchildren : Json.LegibleAll children) :
    (Json.table (entriesOf (n.kind.map Json.string) n.loc n.range (n.raw.map Json.string)
      children)).Legible := by
  refine ⟨?_, ?_⟩
  · cases n.kind <;> simp [entriesOf, encodeKind, Kind.map, Kind.isLeaf]
  · unfold numbers Location.numbers Range.numbers at hnumbers
    have hraw := legible_orNull n.raw
    have hlang {lang : Option Text} := legible_orNull lang
    cases hkind : n.kind <;> rw [hkind] at hnumbers <;>
      simpa [entriesOf, encodeKind, encodeLocation, encodePosition, Json.fields, Kind.map,
        Kind.isLeaf, Json.LegibleEntries, Json.Legible, Json.LegibleAll, hchildren, hraw, hlang,
        Json.ofString, and_assoc] using hnumbers

/-- The encoding of a tree can be written and read when its numbers can. -/
theorem legible_encode (n : Node Text) (h : n.HasShortNumbers) : n.ofTexts.encode.Legible := by
  induction n using Node.induction with
  | step n ih =>
    have hbelow : Json.LegibleAll (encodeAll n.ofTexts.children) := by
      refine legibleAll_encodeAll fun m hm => ?_
      rw [ofTexts, children_map] at hm
      obtain ⟨child, hchild, rfl⟩ := List.mem_map.mp hm
      exact ih child hchild (h.child hchild)
    rw [encode_eq, ofTexts, kind_map, loc_map, range_map, raw_map]
    exact legible_entriesOf n (h n n.mem_preorder_self) hbelow

/-! ## Trees with surrogates -/

/-- A tree of values among those of values that may have surrogates. -/
def wide (n : Node Json) : Node (Json CodePoint) := n.map Json.wide

theorem wideItems_eq_map (items : List Json) : Json.wideItems items = items.map Json.wide := by
  induction items with
  | nil => rfl
  | cons item rest ih => exact congrArg (item.wide :: ·) ih

theorem wide_orNull (value : Option Json) :
    (Json.orNull value).wide = Json.orNull (value.map Json.wide) := by
  cases value <;> rfl

/-- The entries of a node are widened part by part. -/
theorem wideEntries_entriesOf (kind : Kind Json) (loc : Location) (range : Range)
    (raw : Option Json) (children : List Json) :
    Json.wideEntries (entriesOf kind loc range raw children)
      = entriesOf (kind.map Json.wide) loc range (raw.map Json.wide) (children.map Json.wide) := by
  rw [← wideItems_eq_map]
  unfold entriesOf
  rw [← wide_orNull]
  cases kind with
  | codeBlock lang value => cases lang <;> rfl
  | _ => rfl

/-- A tree is encoded in the same way if its texts may have surrogates. -/
theorem wide_encode (n : Node Json) : n.encode.wide = n.wide.encode := by
  induction n using Node.induction with
  | step n ih =>
    have hall (ns : List (Node Json)) (h : ∀ m ∈ ns, m.encode.wide = m.wide.encode) :
        (encodeAll ns).map Json.wide = encodeAll (ns.map wide) := by
      induction ns with
      | nil => rfl
      | cons m rest ihrest =>
        obtain ⟨hm, hrest⟩ := List.forall_mem_cons.mp h
        rw [encodeAll, List.map_cons, hm, ihrest hrest]
        rfl
    have hbelow : (encodeAll n.children).map Json.wide = encodeAll n.wide.children := by
      rw [hall n.children ih, wide, children_map]
      rfl
    rw [encode_eq, encode_eq, ← hbelow, wide, kind_map, loc_map, range_map, raw_map,
      ← wideEntries_entriesOf]
    rfl

/-- A tree of texts with bare leaves is decoded from its encoding among the values that may have
surrogates. -/
theorem decode_wide_encode (n : Node Text) (h : n.HasBareLeaves) :
    decode n.ofTexts.wide.encode = .ok n.ofTexts.wide := by
  have hbare : (n.map (List.map CodePoint.char)).HasBareLeaves := h.map _
  have hwide : n.ofTexts.wide = (n.map (List.map CodePoint.char)).ofTexts := by
    rw [wide, ofTexts, ofTexts, map_map, map_map]
    rfl
  rw [hwide]
  exact decode_encode _ hbare

/-! ## Texts of the format -/

/-- The tree in a text, by way of a reader of the format's values. -/
def readBy (parse : Text → Except Json.ReadFault (Json CodePoint)) (t : Text) :
    Except (DecodeFault CodePoint) (Node (Json CodePoint)) :=
  match parse t with
  | .error .malformed => .error .notInterchange
  | .error .tooLong => .error .numeralTooLong
  | .ok (.table entries) => decode (.table entries)
  | .ok _ => .error .rootNotTable

theorem read_eq_readBy (t : Text) : read t = readBy Json.read t := rfl

theorem readBy_eq_decode {parse : Text → Except Json.ReadFault (Json CodePoint)} {t : Text}
    {n : Node (Json CodePoint)} (h : parse t = .ok n.encode) : readBy parse t = decode n.encode := by
  rw [encode_eq] at h ⊢
  rw [readBy, h]

/-- The pieces of text and the listings of a converted tree have no children. -/
theorem hasBareLeaves_of_ofText {rules : Rules} {t : Text} {n : Node Text}
    (h : (Conversion.ofText rules t).result = .ok n) : n.HasBareLeaves := by
  intro m hm hleaf
  rcases Conversion.placed_of_ofText h hm with rfl | hplaced
  · rfl
  · exact (hplaced.leaf hleaf).1

/-- A tree with bare leaves, and so every converted tree, is decoded from its encoding, whatever
its texts and numbers. It is read from the text that any writer makes of this encoding in any
layout if the reader brings the encoding back; and as the writer and the reader of the format do
so for numbers that are not too long to read, the tree is read from what is written of it. -/
theorem serialized_round_trip (n : Node Text)
    (htree : n.HasBareLeaves ∨ ∃ rules t, (Conversion.ofText rules t).result = .ok n)
    (indent : Option Int) (ascii : Bool) (render : Json.Layout → Json → Text)
    (parse : Text → Except Json.ReadFault (Json CodePoint))
    (hinverts : parse (render (layout indent ascii) n.ofTexts.encode) = .ok n.ofTexts.encode.wide) :
    decode n.ofTexts.encode = .ok n.ofTexts ∧
      readBy parse (render (layout indent ascii) n.ofTexts.encode) = .ok n.ofTexts.wide ∧
      (n.HasShortNumbers → read (written indent ascii n.ofTexts) = .ok n.ofTexts.wide) := by
  have hbare : n.HasBareLeaves := by
    rcases htree with hbare | ⟨rules, t, hresult⟩
    · exact hbare
    · exact hasBareLeaves_of_ofText hresult
  have hdecode := decode_encode n hbare
  have hback {parse : Text → Except Json.ReadFault (Json CodePoint)} {t : Text}
      (h : parse t = .ok n.ofTexts.encode.wide) : readBy parse t = .ok n.ofTexts.wide := by
    rw [wide_encode] at h
    rw [readBy_eq_decode h, decode_wide_encode n hbare]
  refine ⟨hdecode, hback hinverts, fun hshort => ?_⟩
  exact hback (Json.read_written (layout indent ascii) (legible_encode n hshort))

/-- A title of depth zero before a listing, with numbers that no text has, in the layout of
escapes and no indentation. -/
theorem serialized_round_trip_escaped :
    let n : Node Text := .mk .document ⟨⟨-1, 0⟩, ⟨7, -20⟩⟩ ⟨5, -300⟩ none [
      .mk (.header 0) ⟨⟨1, 2⟩, ⟨1, 4⟩⟩ ⟨2, 4⟩ (some ['é', '"']) [
        .mk (.str ['é', '"']) ⟨⟨1, 2⟩, ⟨1, 4⟩⟩ ⟨2, 4⟩ (some ['é', '"']) []],
      .mk (.codeBlock (some ['😀']) ['\\', '\n']) ⟨⟨2, 0⟩, ⟨3, 0⟩⟩ ⟨5, 7⟩ (some []) []]
    decode n.ofTexts.encode = .ok n.ofTexts ∧
      readBy Json.read (Json.written (layout (some (-1)) true) n.ofTexts.encode)
        = .ok n.ofTexts.wide ∧
      (n.HasShortNumbers → read (written (some (-1)) true n.ofTexts) = .ok n.ofTexts.wide) := by
  intro n
  have hshort : n.HasShortNumbers := hasShortNumbers_of_lt 2 (by decide) (by decide)
  have hbare : n.HasBareLeaves := by
    simp [HasBareLeaves, n, preorder, preorderAll, kind, Kind.isLeaf, children]
  exact serialized_round_trip n (.inl hbare) (some (-1)) true Json.written Json.read
    (Json.read_written _ (legible_encode n hshort))

end Node

end Asciidoc
