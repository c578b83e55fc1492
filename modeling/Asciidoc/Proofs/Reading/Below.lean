import Asciidoc.Proofs.Reading.Down
import Asciidoc.Proofs.Text.Pieces

/-!
# A text below other lines

Blank lines and single-line comments before a text say nothing to its tree. They come to stand
before the header, where the reader passes them by, and the lines of the text stand further down:
the text is read as the same document with every hint greater by the number of those lines
(`Element.ofText_below`).
-/

namespace Asciidoc

open Text

/-- A text with lines before it. -/
def Text.below (before : List Text) (t : Text) : Text := before.flatMap (· ++ ['\n']) ++ t

/-- Whether a line is read as blank or as a single-line comment under a marker as configured. -/
def Marker.skips (marker : Marker) (line : Text) : Bool :=
  match Tokens.ofLines? marker [(1, line)] with
  | some tokens => tokens.list.all Token.isSkipped
  | none => false

variable {k : Int} {marker : Marker} {before : List Text}

theorem Tokens.ofLines?_eq (marker : Marker) (lines : List (Int × Text)) :
    ofLines? marker lines =
      if marker = .unusable ∧ lines.any (fun entry => Token.needsMarker entry.2) then none
      else some (ofLines marker.textD lines) :=
  rfl

theorem Tokens.numbered_eq (t : Text) :
    numbered t = t.lines.zipIdx.map fun entry => ((entry.2 : Int) + 1, entry.1) :=
  rfl

theorem Marker.skips_iff {line : Text} : marker.skips line = true ↔
    (marker = .unusable → Token.needsMarker line = false) ∧
      ∀ number, (Token.ofLine marker.textD number line).isSkipped = true := by
  have hany : [((1 : Int), line)].any (fun entry => Token.needsMarker entry.2)
      = Token.needsMarker line := Bool.or_false _
  rw [skips, Tokens.ofLines?_eq, hany]
  by_cases h : marker = .unusable ∧ Token.needsMarker line = true
  · rw [if_pos h]
    simp [h.1, h.2]
  · rw [if_neg h]
    have hneeds : marker = .unusable → Token.needsMarker line = false := by
      intro hmarker
      simpa [hmarker] using h
    have hall : (Tokens.ofLines marker.textD [(1, line)]).list.all Token.isSkipped
        = (Token.ofLine marker.textD 1 line).isSkipped := Bool.and_true _
    dsimp only
    rw [hall]
    exact ⟨fun hline => ⟨hneeds, fun number => hline⟩, fun hline => hline.2 1⟩

/-! ## Lines -/

theorem Text.lines_below (hbefore : ∀ line ∈ before, '\n' ∉ line) (t : Text) :
    (t.below before).lines = before ++ t.lines := by
  induction before with
  | nil => rfl
  | cons line rest ih =>
    obtain ⟨hline, hrest⟩ := List.forall_mem_cons.mp hbefore
    have hbelow : t.below (line :: rest) = line ++ '\n' :: t.below rest := by
      rw [below, below, List.flatMap_cons, List.append_assoc, List.append_assoc]
      rfl
    rw [hbelow, lines, split_append hline, ← lines, ih hrest, List.cons_append]

/-- The lines of the text keep their order and have greater numbers. -/
theorem Tokens.numbered_below (hbefore : ∀ line ∈ before, '\n' ∉ line) (t : Text) :
    ∃ first : List (Int × Text), first.map Prod.snd = before ∧
      numbered (t.below before)
        = first ++ (numbered t).map fun entry => (entry.1 + (before.length : Int), entry.2) := by
  refine ⟨before.zipIdx.map fun entry => ((entry.2 : Int) + 1, entry.1), ?_, ?_⟩
  · rw [List.map_map]
    exact List.zipIdx_map_fst 0 before
  · rw [numbered_eq, numbered_eq, t.lines_below hbefore, List.zipIdx_append, List.map_append, Nat.zero_add, List.map_map,
      List.zipIdx_eq_map_add (l := t.lines), List.map_map]
    congr 1
    apply List.map_congr_left
    intro entry _
    refine Prod.ext ?_ rfl
    simp only [Function.comp_apply]
    omega

/-- Below lines that are passed by stand the lines of the text, further down. -/
theorem Tokens.ofLines?_below (hbefore : ∀ line ∈ before, '\n' ∉ line ∧ marker.skips line = true)
    (t : Text) : ∃ skipped : List Token, (∀ t ∈ skipped, t.isSkipped = true) ∧
      (ofLines? marker (numbered (t.below before))).map Tokens.list
        = (ofLines? marker (numbered t)).map fun tokens =>
          skipped ++ tokens.list.map (Token.down before.length) := by
  obtain ⟨first, hfirst, hnumbered⟩ := numbered_below (fun line hline => (hbefore line hline).1) t
  have hskips : ∀ entry ∈ first, marker.skips entry.2 = true := by
    intro entry hentry
    exact (hbefore entry.2 (hfirst ▸ List.mem_map_of_mem hentry)).2
  refine ⟨first.map fun entry => Token.ofLine marker.textD entry.1 entry.2, ?_, ?_⟩
  · intro t ht
    obtain ⟨entry, hentry, rfl⟩ := List.mem_map.mp ht
    exact (Marker.skips_iff.mp (hskips entry hentry)).2 entry.1
  have hneeds : marker = .unusable →
      (numbered (t.below before)).any (fun entry => Token.needsMarker entry.2)
        = (numbered t).any fun entry => Token.needsMarker entry.2 := by
    intro hmarker
    have hnone : first.any (fun entry => Token.needsMarker entry.2) = false := by
      rw [List.any_eq_false]
      intro entry hentry
      simp [(Marker.skips_iff.mp (hskips entry hentry)).1 hmarker]
    rw [hnumbered, List.any_append, hnone, Bool.false_or, List.any_map]
    rfl
  have hcond : (marker = .unusable ∧
      (numbered (t.below before)).any (fun entry => Token.needsMarker entry.2) = true)
        ↔ (marker = .unusable ∧
          (numbered t).any (fun entry => Token.needsMarker entry.2) = true) :=
    and_congr_right fun hmarker => by rw [hneeds hmarker]
  rw [ofLines?_eq, ofLines?_eq]
  by_cases h : marker = .unusable ∧
      (numbered t).any (fun entry => Token.needsMarker entry.2) = true
  · rw [if_pos h, if_pos (hcond.mpr h)]
    rfl
  · rw [if_neg h, if_neg (mt hcond.mp h), Option.map_some, Option.map_some, hnumbered, ofLines,
      ofLines, List.map_append, List.map_map, List.map_map]
    rfl

/-! ## Documents -/

namespace Cursor

theorem recordAll_moveTo (c : Cursor) (unread lines : List Token) :
    (c.moveTo unread).recordAll lines = (c.recordAll lines).moveTo unread := by
  rw [recordAll, recordAll]
  apply List.foldl_hom fun c : Cursor => c.moveTo unread
  intro c t
  split <;> rfl

/-- Only attribute entries are taken in. -/
theorem recordAll_skipped (c : Cursor) {skipped : List Token}
    (h : ∀ t ∈ skipped, t.isSkipped = true) (lines : List Token) :
    c.recordAll (skipped ++ lines) = c.recordAll lines := by
  induction skipped with
  | nil => rfl
  | cons t rest ih =>
    obtain ⟨ht, hrest⟩ := List.forall_mem_cons.mp h
    rw [← ih hrest, List.cons_append, recordAll, List.foldl_cons]
    split
    · rename_i hkind
      simp [Token.isSkipped, hkind] at ht
    · rfl

/-- Lines that are passed by before the header change nothing. -/
theorem header_skipped (c : Cursor) {skipped : List Token}
    (h : ∀ t ∈ skipped, t.isSkipped = true) :
    (c.moveTo (skipped ++ c.unread)).header = c.header := by
  have hpreamble : (c.moveTo (skipped ++ c.unread)).pastPreamble = c.pastPreamble := by
    have hpass : ∀ t ∈ skipped, (t.isSkipped || t.isAttribute) = true := by
      intro t ht
      rw [h t ht, Bool.true_or]
    rw [pastPreamble, pastPreamble]
    show ((c.moveTo (skipped ++ c.unread)).recordAll
      ((skipped ++ c.unread).takeWhile fun t => t.isSkipped || t.isAttribute)).moveTo
        ((skipped ++ c.unread).dropWhile fun t => t.isSkipped || t.isAttribute) = _
    rw [List.takeWhile_append_of_pos hpass, List.dropWhile_append_of_pos hpass, recordAll_moveTo,
      recordAll_skipped c h]
    rfl
  rw [header, header, hpreamble]

theorem readDocument_skipped (c : Cursor) {skipped : List Token}
    (h : ∀ t ∈ skipped, t.isSkipped = true) (env : Reading) (source : Text) :
    (c.moveTo (skipped ++ c.unread)).readDocument env true source
      = c.readDocument env true source := by
  rw [readDocument, readDocument, if_pos rfl, if_pos rfl, header_skipped c h]

end Cursor

namespace Element

/-- Below blank lines and single-line comments a text is read as the same document, further down,
with the same notices. -/
theorem ofText_below (rules : Rules.Reading)
    (hbefore : ∀ line ∈ before, '\n' ∉ line ∧ marker.skips line = true) (t : Text) :
    ofText rules marker (t.below before) =
      ⟨(ofText rules marker t).document.map fun e =>
          (e.down before.length).withSource (t.below before),
        (ofText rules marker t).notices.map (Notice.down before.length)⟩ := by
  obtain ⟨skipped, hskipped, htokens⟩ := Tokens.ofLines?_below hbefore t
  unfold ofText ofLines
  cases hread : Tokens.ofLines? marker (Tokens.numbered t) with
  | none =>
    rw [hread, Option.map_none, Option.map_eq_none_iff] at htokens
    rw [htokens]
    rfl
  | some tokens =>
    rw [hread, Option.map_some, Option.map_eq_some_iff] at htokens
    obtain ⟨tokens', hread', hlist⟩ := htokens
    let start : Cursor := { unread := tokens.list }
    have hdown : ({ unread := skipped ++ tokens.list.map (Token.down before.length) } :
        Cursor).readDocument ⟨rules, marker.textD⟩ true (t.below before)
          = (((start.readDocument ⟨rules, marker.textD⟩ true t).1.down before.length).withSource
              (t.below before),
            (start.readDocument ⟨rules, marker.textD⟩ true t).2.down before.length) :=
      ((start.down before.length).readDocument_skipped hskipped _ _).trans
        (start.readDocument_down _ true _)
    rw [hread']
    dsimp only
    rw [hlist, hdown, Cursor.fault?_down, Cursor.notices_down]
    cases (start.readDocument ⟨rules, marker.textD⟩ true t).2.fault? with
    | none => rfl
    | some met => rfl

end Element

end Asciidoc
