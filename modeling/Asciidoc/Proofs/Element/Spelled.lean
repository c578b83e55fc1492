import Asciidoc.Proofs.Element.Hints
import Asciidoc.Proofs.Text.Pieces

/-!
# What elements are spelled with

`Element.texts` are the texts an element itself says, its parts aside: the texts that are searched
in the source to locate it. `Element.SpelledIn` says that all their code points are of some kind,
and two things about where elements stand: only the cell of a table holds a document, and a cell
starts on a line of some kind, with a text that does not begin with a line feed.
-/

namespace Asciidoc

/-- Lines put together are spelled with line feeds beside what the lines are spelled with. -/
theorem Text.mem_unlines {c : Char} {lines : List Text} (h : c ∈ unlines lines) :
    c = '\n' ∨ ∃ line ∈ lines, c ∈ line := by
  induction lines with
  | nil => cases h
  | cons first rest ih =>
    cases rest with
    | nil => exact .inr ⟨first, List.mem_cons_self, unlines_singleton first ▸ h⟩
    | cons second others =>
      rw [unlines_cons_cons] at h
      rcases List.mem_append.mp h with h | h
      · exact .inr ⟨first, List.mem_cons_self, h⟩
      · rcases List.mem_cons.mp h with h | h
        · exact .inl h
        · exact (ih h).imp_right fun ⟨line, hline, hc⟩ => ⟨line, List.mem_cons_of_mem _ hline, hc⟩

namespace Element

/-- The texts that an element itself says. -/
def texts : Element → List Text
  | .document _ top _ _ _ => (top.map (·.title)).toList
  | .header title => [title.title]
  | .sectionBlock _ title _ _ => [title]
  | .paragraph _ lines | .literal _ lines | .listing _ lines _ => lines
  | .item _ text _ _ => text.toList
  | .cell _ text _ _ _ => [text]
  | .unorderedList .. | .orderedList .. | .descriptionList .. | .quoteBlock .. | .compound ..
  | .table .. | .unsupported .. | .bare _ => []

/-- Whether an element is a cell of a table. -/
def isCell : Element → Bool
  | .cell .. => true
  | _ => false

variable {P : Char → Prop} {B : Int → Prop} {Q : Element → Prop} {e : Element}

/-- An element says texts of some code points, holds a document only if it is a cell, and starts,
if it is a cell, on a line of some kind. -/
structure SpelledIn (P : Char → Prop) (B : Int → Prop) (e : Element) : Prop where
  texts : ∀ t ∈ e.texts, ∀ c ∈ t, P c
  documents : e.isCell = false → ∀ x ∈ e.parts, x.isDocument = false
  cellLine : e.isCell = true → ∃ n, e.line = some n ∧ B n
  cellText : e.isCell = true → ∀ t ∈ e.texts, t.head? ≠ some '\n'

/-- It also says which line it starts on, unless it is a document, and so does its title. -/
structure HintedIn (P : Char → Prop) (B : Int → Prop) (e : Element) : Prop
    extends SpelledIn P B e where
  hinted : e.isDocument = false → ∃ n, e.line = some n ∧ 1 ≤ n
  title : ∀ x ∈ e.titleLine, ∃ n, x.line = some n ∧ 1 ≤ n

/-- What holds of an element and everything inside it holds throughout, and of the titles too. -/
theorem every_of_preorder (h : ∀ x ∈ e.preorder, Q x) :
    e.Every fun x => Q x ∧ ∀ title ∈ x.titleLine, Q title := by
  induction e using induction with
  | step e ih =>
    rw [preorder_eq] at h
    obtain ⟨hself, hinside⟩ := List.forall_mem_cons.mp h
    have hpart {x : Element} (hx : x ∈ e.titleLine ++ e.parts) : ∀ y ∈ x.preorder, Q y :=
      fun y hy => hinside y (List.mem_flatMap.mpr ⟨x, hx, hy⟩)
    refine .intro ⟨hself, fun title htitle => ?_⟩ fun x hx => ?_
    · exact hpart (List.mem_append_left _ htitle) title (preorder_eq title ▸ List.mem_cons_self)
    · exact ih x hx (hpart (List.mem_append_right _ hx))

theorem Every.imp₂ {R S : Element → Prop} (h : e.Every Q) (h' : e.Every R)
    (hself : ∀ e, Q e → R e → S e) : e.Every S := by
  induction e using induction with
  | step e ih =>
    exact .intro (hself e h.self h'.self) fun x hx => ih x hx (h.part hx) (h'.part hx)

theorem isDocument_of_mem_titleLine {title : Element} (h : title ∈ e.titleLine) :
    title.isDocument = false := by
  unfold titleLine at h
  split at h
  · obtain rfl := List.mem_singleton.mp h
    rfl
  · cases h

end Element

end Asciidoc
