import Asciidoc.Proofs.Node.Placed
import Asciidoc.Proofs.Span.Covered

/-!
# Reported text and source are in step

A piece of text says what the reader made of its lines, and its source is cut out of the text where
these were found. The two are told on different paths, and they agree all the same: line by line,
when the comments that were passed by are left out of the source (`convert_inStep`).
-/

namespace Asciidoc

open Text

namespace Source

variable {s : Source} {marker : Text} {skip : Bool} {pieces : List Text} {l : Location}

theorem not_mem_of_forall₂ {lines : List Text}
    (h : List.Forall₂ (fun piece line => piece <:+: line) pieces lines)
    (hlines : ∀ line ∈ lines, '\n' ∉ line) : ∀ piece ∈ pieces, '\n' ∉ piece := by
  induction h with
  | nil => exact nofun
  | cons hpiece _ ih =>
    obtain ⟨hline, hrest⟩ := List.forall_mem_cons.mp hlines
    exact List.forall_mem_cons.mpr ⟨fun h => hline (hpiece.subset h), ih hrest⟩

/-- Texts that are found in lines have no line feeds in them. -/
theorem FoundAt.not_mem (h : s.FoundAt marker skip pieces l) : ∀ piece ∈ pieces, '\n' ∉ piece := by
  have hpiece {piece line : Text} {column : Nat} (hline : line ∈ s.lines)
      (h : piece.OccursAt line column) : '\n' ∉ piece := by
    have hwithin := occursAt_iff_infix.mp ⟨column, h⟩
    exact fun hmem => not_mem_line hline (hwithin.subset hmem)
  cases h with
  | oneLine hlines h =>
    exact List.forall_mem_singleton.mpr
      (hpiece (hlines ▸ List.mem_append_right _ List.mem_cons_self) h)
  | @severalLines before between after others line final _ _ _ _ hlines hfirst hothers hlast =>
    have hmem : ∀ x ∈ line :: (between ++ final :: after), x ∈ s.lines := fun x hx =>
      hlines ▸ List.mem_append_right before hx
    obtain ⟨hline, hrest⟩ := List.forall_mem_cons.mp hmem
    obtain ⟨hbetween, hafter⟩ := List.forall_mem_append.mp hrest
    refine List.forall_mem_cons.mpr ⟨hpiece hline hfirst, List.forall_mem_append.mpr ⟨?_,
      List.forall_mem_singleton.mpr (hpiece (hafter final List.mem_cons_self) hlast)⟩⟩
    exact not_mem_of_forall₂ hothers fun x hx =>
      not_mem_line (hbetween x (List.mem_of_mem_filter hx))

end Source

/-- A piece of text or a listing is in step with its source; the comments in a listing are part of
it. -/
def Node.InStep (marker : Text) (skip : Bool) (n : Node Text) : Prop :=
  match n.kind with
  | .str value => ∃ raw, n.raw = some raw ∧ Text.InStep marker skip value raw
  | .codeBlock _ value => ∃ raw, n.raw = some raw ∧ Text.InStep marker false value raw
  | _ => True

namespace Locating

variable {env : Locating} {skip : Bool}

/-- What is found for an element is found in lines of the text. -/
theorem foundAt_of_find {what : Text} {line : Hint} {expected : List Text} {w : Window}
    {loc : Location} (h : env.find what line expected w = .ok loc) :
    env.source.FoundAt env.marker.textD w.skipComments expected loc :=
  Source.foundAt_of_find? (find_eq_ok h)

/-- Being in step is kept by everything that makes nodes in windows of one kind. -/
theorem inStep_closedFor (env : Locating) (skip : Bool) :
    env.ClosedFor skip (fun _ => True) (Converted.Every (Node.InStep env.marker.textD skip)) := by
  refine .of_every ?_ ?_ ?_
  · intro kind inside hkind hinside
    refine gather_every hinside fun n haround => ?_
    obtain ⟨_, _, -, -, hnode⟩ := around?_eq_some haround
    unfold Node.InStep
    rw [(node?_eq_some hnode).1]
    cases hkind <;> trivial
  · intro outer houter what line value expected w hexpected hw
    refine textNode_every fun loc leaf n hfind hleaf hnode => ⟨?_, ?_⟩
    · have hfound := foundAt_of_find hfind
      rw [hw] at hfound
      have hlines : value.lines = expected := by
        rcases hexpected with hexpected | hexpected
        · exact hexpected.symm
        · subst hexpected
          exact split_of_not_mem (hfound.not_mem value List.mem_cons_self)
      obtain ⟨hkind, -, -, hrange, hraw⟩ := node?_eq_some hleaf
      unfold Node.InStep
      rw [hkind]
      exact ⟨_, hraw, Source.FoundAt.inStep (hlines ▸ hfound) hrange⟩
    · unfold Node.InStep
      rw [(node?_eq_some hnode).1]
      cases houter <;> trivial
  · intro line lines language w
    refine listing_every fun loc n hfind hnode => ?_
    have hfound := foundAt_of_find hfind
    have hne : lines ≠ [] := by
      rintro rfl
      cases hfound
    have hlines : (unlines lines).lines = lines := lines_unlines hne hfound.not_mem
    obtain ⟨hkind, -, -, hrange, hraw⟩ := node?_eq_some hnode
    unfold Node.InStep
    rw [hkind]
    exact ⟨_, hraw, Source.FoundAt.inStep (hlines.symm ▸ hfound) hrange⟩

end Locating

/-- Every piece of text and every listing that an element becomes is in step with its source, for
every element tree with whatever hints, every window and all rules. -/
theorem convert_inStep (rules : Rules) (t : Text) (w : Window) (e : Element) :
    ((rules.locating t).convert w e).Every (Node.InStep rules.marker.textD w.skipComments) :=
  Locating.convert_closedFor ((rules.locating t).inStep_closedFor w.skipComments) trivial w rfl e
    e.every_titledBy_true

end Asciidoc
