import Asciidoc.Element.Basic

/-!
# The parts of an element

The parts of an element are the elements directly inside it, in source order: blocks, items, terms
and descriptions, cells, the document in a cell. `Element.Every` is a property of an element and
of all that is inside it at any depth; it is stated over parts alone, so that a law about whole
trees has one case and not one for each kind of container.
-/

namespace Asciidoc

/-- An item of an entry is one of its terms or its description. -/
theorem Entry.mem_items {α : Type} {entry : Entry α} {x : α} :
    x ∈ entry.items ↔ x ∈ entry.terms ∨ entry.description = some x := by
  simp [Entry.items]

namespace Element

/-- The elements directly inside an element, in source order. -/
def parts : Element → List Element
  | .document _ _ blocks _ _ | .sectionBlock _ _ _ blocks | .item _ _ _ blocks
  | .quoteBlock _ blocks | .compound _ _ blocks => blocks
  | .unorderedList _ _ items | .orderedList _ _ items => items
  | .descriptionList _ _ entries => entries.flatMap Entry.items
  | .table _ headerRows bodyRows => headerRows.flatten ++ bodyRows.flatten
  | .cell _ _ _ inner _ => inner.toList
  | .header _ | .paragraph _ _ | .literal _ _ | .listing _ _ _ | .unsupported _ _ | .bare _ => []

/-- A property of an element and of everything inside it. -/
inductive Every (Q : Element → Prop) : Element → Prop where
  /-- It holds of the element, and throughout each of its parts. -/
  | intro {e : Element} (self : Q e) (parts : ∀ x ∈ e.parts, Every Q x) : Every Q e

variable {Q : Element → Prop} {e : Element}

theorem Every.self (h : e.Every Q) : Q e := by
  cases h
  assumption

theorem Every.part (h : e.Every Q) {x : Element} (hx : x ∈ e.parts) : x.Every Q := by
  obtain ⟨-, hparts⟩ := h
  exact hparts x hx

/-- An element inside another is smaller. -/
theorem sizeOf_lt_of_mem_parts {x : Element} (h : x ∈ e.parts) : sizeOf x < sizeOf e := by
  cases e with
  | document _ _ blocks _ _ | sectionBlock _ _ _ blocks | item _ _ _ blocks
  | quoteBlock _ blocks | compound _ _ blocks =>
    have := List.sizeOf_lt_of_mem (show x ∈ blocks from h)
    simp
    omega
  | unorderedList _ _ items | orderedList _ _ items =>
    have := List.sizeOf_lt_of_mem (show x ∈ items from h)
    simp
    omega
  | descriptionList _ _ entries =>
    obtain ⟨⟨terms, description⟩, hentry, hx⟩ := List.mem_flatMap.mp h
    have := List.sizeOf_lt_of_mem hentry
    rcases Entry.mem_items.mp hx with hx | hx
    · have := List.sizeOf_lt_of_mem hx
      simp at *
      omega
    · simp only at hx
      subst hx
      simp at *
      omega
  | table _ headerRows bodyRows =>
    rcases List.mem_append.mp h with h | h <;>
    · obtain ⟨row, hrow, hx⟩ := List.mem_flatten.mp h
      have := List.sizeOf_lt_of_mem hrow
      have := List.sizeOf_lt_of_mem hx
      simp
      omega
  | cell _ _ _ inner _ =>
    obtain rfl : inner = some x := by simpa [parts] using h
    simp
    omega
  | header _ | paragraph _ _ | literal _ _ | listing _ _ _ | unsupported _ _ | bare _ =>
    simp [parts] at h

/-- Induction over an element by its parts. -/
theorem induction {P : Element → Prop} (step : ∀ e, (∀ x ∈ e.parts, P x) → P e) (e : Element) :
    P e :=
  step e fun x hx =>
    have := sizeOf_lt_of_mem_parts hx
    induction step x
termination_by sizeOf e

/-- What holds of all elements holds throughout each of them. -/
theorem every_of_forall (h : ∀ e, Q e) (e : Element) : e.Every Q := by
  induction e using induction with
  | step e ih => exact .intro (h e) ih

end Element

end Asciidoc
