import Asciidoc.Proofs.Element.Outside
import Mathlib.Data.List.Perm.Subperm

/-!
# Lists inside lists

A list is told from the lists around it by its mark: the marker of its items or the delimiter of its
terms. `Element.Fresh` says of an element that no list in it has the mark of a list around that. It
is a property of trees alone, kept by whatever puts an element around others, and it is all that is
needed for the marks along a chain of lists each inside the one before to be different
(`Fresh.chain`).
-/

namespace Asciidoc.Element

/-- The mark of a list: the marker of its items or the delimiter of its terms. -/
def mark? : Element → Option Text
  | .unorderedList _ marker _ | .orderedList _ marker _ => some marker
  | .descriptionList _ delimiter _ => some delimiter
  | _ => none

/-- An element is nested in another: it is in an item, a term or a description of it, at any depth
but not in a cell. -/
def Nests (outer inner : Element) : Prop := ∃ x ∈ outer.parts, inner ∈ x.outside

/-- No list in an element has one of the marks used around it, or the mark of a list in the element
that it is inside of. Tables are not looked into. -/
inductive Fresh : List Text → Element → Prop where
  | list {used : List Text} {mark : Text} {e : Element} (hmark : e.mark? = some mark)
      (hnew : mark ∉ used) (hparts : ∀ x ∈ e.parts, Fresh (used ++ [mark]) x) : Fresh used e
  | other {used : List Text} {e : Element} (hmark : e.mark? = none)
      (hparts : e.isTable = false → ∀ x ∈ e.parts, Fresh used x) : Fresh used e

variable {used : List Text} {mark : Text} {e x : Element}

theorem isTable_of_mark? (h : e.mark? = some mark) : e.isTable = false := by
  cases e with
  | table => cases h
  | _ => rfl

theorem mark?_of_mem_titleLine (h : x ∈ e.titleLine) : x.mark? = none := by
  unfold titleLine at h
  split at h
  · obtain rfl := List.mem_singleton.mp h
    rfl
  · cases h

/-- What holds no lists uses no marks. -/
theorem fresh_of_forall_mark? (h : ∀ x ∈ e.outside, x.mark? = none) : Fresh used e := by
  induction e using induction with
  | step e ih =>
    refine .other (h e e.mem_outside_self) fun htable x hx => ih x hx fun y hy => h y ?_
    rw [outside_of_not_isTable htable]
    exact List.mem_cons_of_mem _ (List.mem_append_right _ (List.mem_flatMap.mpr ⟨x, hx, hy⟩))

/-- A list in an element knows of all marks used around that. -/
theorem Fresh.of_mem_outside (h : Fresh used e) (hx : x ∈ e.outside) (hlist : x.mark? = some mark) :
    ∃ more, used ⊆ more ∧ Fresh more x := by
  have hinside {e : Element} (hx : x ∈ e.outside) :
      x = e ∨ e.isTable = false ∧ ∃ y ∈ e.parts, x ∈ y.outside := by
    rw [outside_eq] at hx
    rcases List.mem_cons.mp hx with rfl | hx
    · exact .inl rfl
    rcases List.mem_append.mp hx with hx | hx
    · rw [mark?_of_mem_titleLine hx] at hlist
      cases hlist
    · split at hx
      · cases hx
      · exact .inr ⟨by simpa using ‹¬e.isTable = true›, List.mem_flatMap.mp hx⟩
  induction h with
  | @list used mark e hmark hnew hparts ih =>
    rcases hinside hx with rfl | ⟨-, y, hy, hx⟩
    · exact ⟨used, List.Subset.refl _, .list hmark hnew hparts⟩
    · obtain ⟨more, hmore, hfresh⟩ := ih y hy hx
      exact ⟨more, fun m hm => hmore (List.mem_append_left _ hm), hfresh⟩
  | @other used e hmark hparts ih =>
    rcases hinside hx with rfl | ⟨htable, y, hy, hx⟩
    · exact ⟨used, List.Subset.refl _, .other hmark hparts⟩
    · exact ih htable y hy hx

/-- Along a chain of lists, each nested in the one before, all marks are different, and none of them
is used around the first. -/
theorem Fresh.chain {rest : List Element} (h : Fresh used e)
    (hlists : ∀ x ∈ e :: rest, x.mark?.isSome = true) (hchain : (e :: rest).IsChain Nests) :
    ((e :: rest).map mark?).Nodup ∧
      ∀ x ∈ e :: rest, ∀ mark, x.mark? = some mark → mark ∉ used := by
  induction rest generalizing e used with
  | nil =>
    refine ⟨by simp, fun x hx mark hmark => ?_⟩
    obtain rfl := List.mem_singleton.mp hx
    cases h with
    | list hown hnew =>
      obtain rfl := Option.some.inj (hmark.symm.trans hown)
      exact hnew
    | other hnone =>
      rw [hmark] at hnone
      cases hnone
  | cons next rest ih =>
    obtain ⟨hself, hothers⟩ := List.forall_mem_cons.mp hlists
    obtain ⟨⟨y, hy, hnext⟩, hrest⟩ := List.isChain_cons_cons.mp hchain
    obtain ⟨below, hbelow⟩ := Option.isSome_iff_exists.mp (hothers next List.mem_cons_self)
    cases h with
    | @list _ mark _ hmark hnew hparts =>
      obtain ⟨more, hmore, hfresh⟩ := (hparts y hy).of_mem_outside hnext hbelow
      obtain ⟨hnodup, hmarks⟩ := ih hfresh hothers hrest
      refine ⟨?_, List.forall_mem_cons.mpr ⟨fun m hm => ?_, fun x hx m hm hused => ?_⟩⟩
      · rw [List.map_cons]
        refine List.nodup_cons.mpr ⟨fun hmem => ?_, hnodup⟩
        obtain ⟨x, hx, heq⟩ := List.mem_map.mp hmem
        exact hmarks x hx mark (heq.trans hmark) (hmore (List.mem_append_right _ List.mem_cons_self))
      · obtain rfl := Option.some.inj (hm.symm.trans hmark)
        exact hnew
      · exact hmarks x hx m hm (hmore (List.mem_append_left _ hused))
    | other hnone =>
      rw [hnone] at hself
      cases hself

/-- So they are along a chain of lists inside the element. -/
theorem Fresh.nodup_of_chain {chain : List Element} (h : Fresh used e)
    (hlists : ∀ x ∈ chain, x ∈ e.outside ∧ x.mark?.isSome = true) (hchain : chain.IsChain Nests) :
    (chain.map mark?).Nodup := by
  cases chain with
  | nil => exact List.nodup_nil
  | cons first rest =>
    obtain ⟨hmem, hsome⟩ := hlists first List.mem_cons_self
    obtain ⟨mark, hmark⟩ := Option.isSome_iff_exists.mp hsome
    obtain ⟨more, -, hfirst⟩ := h.of_mem_outside hmem hmark
    obtain ⟨hnodup, -⟩ := hfirst.chain (fun x hx => (hlists x hx).2) hchain
    exact hnodup

/-- Different marks are no more than the marks that there are. -/
theorem length_le_of_nodup {chain : List Element} {marks : List Text}
    (hnodup : (chain.map mark?).Nodup) (hlists : ∀ x ∈ chain, ∃ mark ∈ marks, x.mark? = some mark) :
    chain.length ≤ marks.length := by
  have hsubset : chain.map mark? ⊆ marks.map some := by
    intro found hfound
    obtain ⟨x, hx, rfl⟩ := List.mem_map.mp hfound
    obtain ⟨mark, hmem, hmark⟩ := hlists x hx
    exact hmark ▸ List.mem_map_of_mem hmem
  simpa using (List.subperm_of_subset hnodup hsubset).length_le

end Asciidoc.Element
