import Asciidoc.Proofs.Node.Alike
import Asciidoc.Proofs.Reading.Below
import Asciidoc.Proofs.Reading.Spelled

/-!
# Converting a text below other lines

A text below blank lines and single-line comments becomes the same tree further down
(`convert_below`): the document is read the same with greater hints, and its texts are found
again behind the lines before them, at offsets greater by the length of those.
-/

namespace Asciidoc

open Text

variable {before : List Text}

/-- Places in a text below other lines. -/
def Move.below (before : List Text) : Move where
  lines := before.length
  offsets _ := (Text.below before []).length
  raw := id

/-! ## Offsets and pieces -/

theorem Text.below_eq_append (t : Text) : t.below before = Text.below before [] ++ t := by
  rw [below, below, List.append_nil]

/-- The lines of the text start behind those before it. -/
theorem lineStart_below (lines : List Text) (index : Nat) :
    lineStart (before ++ lines) (before.length + index)
      = (Text.below before []).length + lineStart lines index := by
  induction before with
  | nil => simp [below]
  | cons line rest ih =>
    have hlength : (Text.below (line :: rest) []).length
        = line.length + 1 + (Text.below rest []).length := by
      rw [below, List.flatMap_cons, List.append_assoc, ← below, List.length_append,
        List.length_append, List.length_singleton]
    rw [List.cons_append, List.length_cons, Nat.add_right_comm, lineStart_cons_succ, ih, hlength]
    omega

namespace Source

variable (marker t : Text)

theorem alike_below (hbefore : ∀ line ∈ before, '\n' ∉ line) :
    (ofText t).Alike (fun _ _ => True) before.length marker (ofText (t.below before)) := by
  obtain ⟨first, hfirst, hnumbered⟩ := Tokens.numbered_below hbefore t
  have hlength : first.length = before.length := by
    rw [← hfirst, List.length_map]
  have hdrop : (ofText (t.below before)).numbered.drop before.length
      = (ofText t).numbered.map fun entry => (entry.1 + (before.length : Int), entry.2) := by
    rw [← hlength]
    exact (congrArg (List.drop first.length) hnumbered).trans (by rw [List.drop_left, hlength]; rfl)
  rw [Alike, hdrop, List.forall₂_map_right_iff, List.forall₂_same]
  exact fun entry _ => ⟨rfl, Nat.le_refl _, rfl, fun _ _ _ => rfl⟩

theorem offset?_below (hbefore : ∀ line ∈ before, '\n' ∉ line) {p : Position} {o : Int}
    (hp : (ofText t).HasPosition p) (ho : (ofText t).offset? p = some o) :
    (ofText (t.below before)).offset? (p.down before.length)
      = some (o + (Text.below before []).length) := by
  obtain ⟨index, column, line, hline, -, rfl⟩ := hasPosition_iff.mp hp
  have hindex : index ≤ (ofText t).count := Nat.le_of_lt (List.getElem?_eq_some_iff.mp hline).1
  rw [offset?_eq hindex] at ho
  obtain rfl := Option.some.inj ho
  have hlines : (ofText (t.below before)).lines = before ++ (ofText t).lines :=
    t.lines_below hbefore
  have hindex' : before.length + index ≤ (ofText (t.below before)).count := by
    rw [count, hlines, List.length_append]
    exact Nat.add_le_add_left hindex _
  have hposition : (⟨(index : Int) + 1, column⟩ : Position).down before.length
      = ⟨((before.length + index : Nat) : Int) + 1, column⟩ := by
    rw [Position.down, Position.mk.injEq]
    dsimp only
    exact ⟨by omega, rfl⟩
  rw [hposition, offset?_eq hindex', hlines, lineStart_below]
  congr 1
  omega

theorem slice_below {l : Location} {r : Range} (hl : (ofText t).HasLocation l)
    (hr : (ofText t).range? l = some r) :
    (ofText (t.below before)).slice (r.moved (.below before) l) = (ofText t).slice r := by
  obtain ⟨hstart, hstop⟩ := range?_eq_some hr
  obtain ⟨a, ha⟩ := Int.eq_ofNat_of_zero_le (hl.1.offset_le hstart).1
  obtain ⟨b, hb⟩ := Int.eq_ofNat_of_zero_le (hl.2.offset_le hstop).1
  show Text.slice (t.below before) (r.start + (Text.below before []).length)
    (r.stop + (Text.below before []).length) = Text.slice t r.start r.stop
  rw [ha, hb, ← Int.natCast_add, ← Int.natCast_add, slice_natCast, slice_natCast,
    t.below_eq_append, Nat.add_comm a, Nat.add_comm b, List.take_length_add_append,
    List.drop_length_add_append]

end Source

/-! ## Trees -/

/-- A text and the same below other lines are searched alike. -/
theorem Rules.locating_below (rules : Rules) (hbefore : ∀ line ∈ before, '\n' ∉ line) (t : Text) :
    (rules.locating t).Follows (fun _ => True) (fun _ => True) (.below before)
      (rules.locating (t.below before)) := by
  have halike : (rules.locating t).source.Alike (fun _ _ => True) before.length
      (rules.locating t).marker.textD (rules.locating (t.below before)).source :=
    Source.alike_below _ t hbefore
  refine Locating.follows_of_alike halike rfl rfl rfl trivial (fun _ _ => trivial)
    (Source.offset?_below t hbefore) (Source.slice_below t) ?_
  intro kind line text w _ _ hline _ _
  exact Locating.find_alike halike rfl rfl kind line hline (fun _ _ => trivial) fun _ _ => trivial

/-- What a text is converted to below blank lines and single-line comments: its document has every
hint greater by the number of those lines, and its tree is the same with every line greater by
that number and every offset by the length of those lines. -/
theorem convert_below (rules : Rules) {before : List Text}
    (hbefore : ∀ line ∈ before, '\n' ∉ line ∧ rules.marker.skips line = true) (t : Text) :
    ((Element.ofText rules.reading rules.marker (t.below before)).document
        = (Element.ofText rules.reading rules.marker t).document.map fun e =>
          (e.down before.length).withSource (t.below before)) ∧
      Conversion.Moved (.below before) (Conversion.ofText rules t).result
        (Conversion.ofText rules (t.below before)).result := by
  have hload := congrArg Loaded.document (Element.ofText_below rules.reading hbefore t)
  refine ⟨hload, ?_⟩
  apply Conversion.ofText_follows (rules.locating_below (fun line h => (hbefore line h).1) t) hload
  intro root hroot
  exact Element.ofText_hintedIn hroot trivial fun u _ => Token.SpelledIn.trivial

/-- A paragraph below a comment and a blank line. -/
theorem convert_below_comment :
    (∀ line ∈ ["// c".toList, []], '\n' ∉ line ∧ ({} : Rules).marker.skips line = true) ∧
    (Conversion.ofText {} "// c\n\na".toList).result =
      .ok (.mk .document ⟨⟨3, 0⟩, ⟨3, 1⟩⟩ ⟨6, 7⟩ (some ['a'])
        [.mk .paragraph ⟨⟨3, 0⟩, ⟨3, 1⟩⟩ ⟨6, 7⟩ (some ['a'])
          [.mk (.str ['a']) ⟨⟨3, 0⟩, ⟨3, 1⟩⟩ ⟨6, 7⟩ (some ['a']) []]]) := by
  have hbefore : ∀ line ∈ ["// c".toList, []],
      '\n' ∉ line ∧ ({} : Rules).marker.skips line = true := by
    with_unfolding_all decide
  have hresult : (Conversion.ofText {} ['a']).result =
      .ok (.mk .document ⟨⟨1, 0⟩, ⟨1, 1⟩⟩ ⟨0, 1⟩ (some ['a'])
        [.mk .paragraph ⟨⟨1, 0⟩, ⟨1, 1⟩⟩ ⟨0, 1⟩ (some ['a'])
          [.mk (.str ['a']) ⟨⟨1, 0⟩, ⟨1, 1⟩⟩ ⟨0, 1⟩ (some ['a']) []]]) := by
    with_unfolding_all rfl
  obtain ⟨-, hmoved⟩ := convert_below {} hbefore ['a']
  refine ⟨hbefore, ?_⟩
  show (Conversion.ofText {} (Text.below ["// c".toList, []] ['a'])).result = _
  rw [hresult] at hmoved
  generalize (Conversion.ofText {} (Text.below ["// c".toList, []] ['a'])).result = moved
    at hmoved ⊢
  cases hmoved with
  | tree h =>
    rw [h.moved nofun]
    rfl

end Asciidoc
