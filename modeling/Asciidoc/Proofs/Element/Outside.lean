import Asciidoc.Proofs.Element.Hints

/-!
# Elements outside cells

What is in a table cell is read and located by rules of its own. `Element.outside` is an element
with everything inside it in source order, where a table is not looked into: the elements that
become the titles, paragraphs, listings and tables of the converted document.
-/

namespace Asciidoc.Element

/-- Whether an element is a table. -/
def isTable : Element → Bool
  | .table .. => true
  | _ => false

/-- An element and everything inside it in source order, but for what is inside tables. -/
def outside (e : Element) : List Element :=
  e :: (e.titleLine ++ if e.isTable then [] else e.parts.attach.flatMap fun x => outside x.1)
termination_by sizeOf e
decreasing_by exact sizeOf_lt_of_mem_parts x.2

variable {e x : Element} {Q : Element → Prop}

theorem outside_eq (e : Element) :
    e.outside = e :: (e.titleLine ++ if e.isTable then [] else e.parts.flatMap outside) := by
  rw [outside]
  simp

theorem outside_of_isTable (h : e.isTable = true) : e.outside = [e] := by
  have htitle : e.titleLine = [] := by
    cases e with
    | table => rfl
    | _ => cases h
  rw [outside_eq, if_pos h, htitle]
  rfl

/-- Around elements that are no table there is nothing else than the element and its title. -/
theorem outside_of_not_isTable (h : e.isTable = false) :
    e.outside = e :: (e.titleLine ++ e.parts.flatMap outside) := by
  rw [outside_eq, h, if_neg Bool.false_ne_true]

theorem mem_outside_self (e : Element) : e ∈ e.outside := by
  rw [outside_eq]
  exact List.mem_cons_self

/-- A property of an element, of its title line and throughout its parts. -/
theorem forall_mem_outside (self : Q e) (title : ∀ x ∈ e.titleLine, Q x)
    (parts : e.isTable = false → ∀ x ∈ e.parts, ∀ y ∈ x.outside, Q y) : ∀ x ∈ e.outside, Q x := by
  intro x hx
  rw [outside_eq] at hx
  rcases List.mem_cons.mp hx with rfl | hx
  · exact self
  rcases List.mem_append.mp hx with hx | hx
  · exact title x hx
  split at hx
  · cases hx
  · obtain ⟨y, hy, hx⟩ := List.mem_flatMap.mp hx
    exact parts (by simpa using ‹¬e.isTable = true›) y hy x hx

/-- Everything outside cells is in the tree. -/
theorem outside_subset_preorder (e : Element) : e.outside ⊆ e.preorder := by
  induction e using induction with
  | step e ih =>
    apply forall_mem_outside
    · rw [preorder_eq]
      exact List.mem_cons_self
    · intro x hx
      rw [preorder_eq]
      refine List.mem_cons_of_mem _ (List.mem_flatMap.mpr ⟨x, List.mem_append_left _ hx, ?_⟩)
      rw [preorder_eq]
      exact List.mem_cons_self
    · intro _ x hx y hy
      rw [preorder_eq]
      exact List.mem_cons_of_mem _
        (List.mem_flatMap.mpr ⟨x, List.mem_append_right _ hx, ih x hx hy⟩)

end Asciidoc.Element
