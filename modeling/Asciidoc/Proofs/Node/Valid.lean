import Asciidoc.Proofs.Node.Apart
import Asciidoc.Proofs.Reading.Levels

/-!
# When a converted text is valid

What the validator asks of the tree of a text comes down to the order of its leaves: all nodes
are placed and all titles have a depth, whatever the text. For a text without tables, and without
comments where lines are searched as they stand, it comes down to the text itself: every
description on the line of its term is found behind the term (`convert_valid_iff`). It is not
always: a description is searched from the start of its line, so that it is found inside its
term if the term has the same text.
-/

namespace Asciidoc

open Text

/-! ## Sound trees -/

namespace Locating

variable {env : Locating}

/-- Titles that are made have the depth that is asked for. -/
theorem keeps_hasDepth (env : Locating) : env.Keeps (fun depth => 1 ≤ depth) Node.HasDepth where
  gather {kind inside} hkind hinside := by
    refine gather_every hinside fun n haround depth hdepth => ?_
    obtain ⟨_, _, -, -, hnode⟩ := around?_eq_some haround
    rw [(node?_eq_some hnode).1] at hdepth
    subst hdepth
    cases hkind
  textNode {outer} houter what line value expected w := by
    refine textNode_every fun loc leaf n _ hleaf hnode => ⟨fun depth hdepth => ?_,
      fun depth hdepth => ?_⟩
    · rw [(node?_eq_some hleaf).1] at hdepth
      cases hdepth
    · rw [(node?_eq_some hnode).1] at hdepth
      subst hdepth
      cases houter
      assumption
  listing line lines language w := by
    refine listing_every fun loc n _ hnode depth hdepth => ?_
    rw [(node?_eq_some hnode).1] at hdepth
    cases hdepth

/-- What an element becomes is sound if all its sections have a level. -/
theorem convert_sound (env : Locating) (w : Window) {e : Element} (h : e.HasLevels) :
    ∀ n ∈ (env.convert w e).nodes, n.Sound env.source := fun n hn =>
  ⟨convert_placedIn env w e n hn, convert_every env.keeps_hasDepth (by decide) w e h n hn⟩

/-! ## Documents -/

variable {marker : Text} {low high : Int}

/-- The tree of a document that is plain all through has its leaves in order exactly when every
description is found behind its term. -/
theorem document_inOrder_iff (env : Locating) (hmarker : env.marker = .text marker)
    (hreturn : '\r' ∉ marker) (line : Hint) {top : Option Title} {blocks : List Element}
    (attributes : List (Text × Text)) (source : Text)
    (htitle : ∀ title, top = some title → ∃ line, title.line = some line ∧ line < low ∧
      env.source.Takes marker line [title.title] line) (hlow : 1 ≤ low)
    (hblocks : env.source.SpansAll marker low high blocks) (hhigh : high ≤ env.source.count + 1)
    (hplain : (Element.document line top blocks attributes source).Every
      (Element.IsPlain env.source marker)) :
    (env.convert ⟨1, env.source.count, true, 0⟩
      (.document line top blocks attributes source)).LeavesInOrder ↔
        (Element.document line top blocks attributes source).Every
          (Element.TermsFirst env.source marker) := by
  have hw : Window.IsWide ⟨1, env.source.count, true, 0⟩ := ⟨rfl, rfl⟩
  have hlies := convertAll_lies hmarker hreturn hw hlow none blocks hblocks hhigh (by simp)
    fun x hx => hplain.part hx
  have hplaced := convertAll_placed env ⟨1, env.source.count, true, 0⟩ none blocks
  refine Iff.trans ?_ (Element.forall_iff_every trivial rfl)
  rw [convert_document]
  cases top with
  | none => exact (gather_lies rfl hplaced hlies.between hlies.inOrder_iff).inOrder_iff
  | some title =>
    obtain ⟨number, hline, hbefore, htakes⟩ := htitle title rfl
    have hbounds := htakes.bounds
    have htop : (env.titled "header".toList title.line title.title 1
        (Window.narrowed ⟨1, env.source.count, true, 0⟩ title.line none)).Lies number low True := by
      rw [hline]
      exact taken_lies hmarker rfl _ _ _ htakes (hw.narrowed (some number) none)
        hbounds.2.2 hbefore
    have hdepth : (Node.Kind.header 1 : Node.Kind Text).HoldsText fun _ => True :=
      .header trivial
    have htopPlaced := env.keeps_placed.textNode hdepth "header".toList title.line
      title.title [title.title] (Window.narrowed ⟨1, env.source.count, true, 0⟩ title.line none)
    have hboth := (htop.append htopPlaced hplaced hlies (by omega) hblocks.le).congr
      (Iff.of_eq (true_and _))
    exact (gather_lies rfl (htopPlaced.append hplaced) hboth.between
      hboth.inOrder_iff).inOrder_iff

end Locating

/-- Nothing is wrong with the empty document. -/
theorem Node.violations?_emptyDocument (s : Source) :
    Node.emptyDocument.ofTexts.violations? s = some [] := by
  have horigin : s.offset? Position.origin = some 0 := @Source.offset?_eq s 0 0 (Nat.zero_le _)
  have hrange : s.range? ⟨Position.origin, Position.origin⟩ = some ⟨0, 0⟩ := by
    rw [Source.range?, horigin]
    rfl
  have hspan : Node.emptyDocument.ofTexts.spanViolations? s = some [] := by
    have hinside : 0 ≤ (0 : Int) ∧ (0 : Int) ≤ 0 ∧ (0 : Int) ≤ s.text.length :=
      ⟨Int.le_refl _, Int.le_refl _, by omega⟩
    have hloc : emptyDocument.ofTexts.loc = ⟨Position.origin, Position.origin⟩ := rfl
    rw [spanViolations?, hloc, hrange]
    exact if_neg (not_not_intro hinside)
  exact violations?_eq_nil_step.mpr ⟨rfl, hspan, fun _ => ⟨rfl, List.forall_mem_nil _⟩⟩

/-- The validator finds nothing wrong in the tree of a text exactly when its leaves are in order.
If the text is plain all through, it finds nothing wrong exactly when every description that
starts on the line of its term is found behind the term. -/
theorem convert_valid_iff (t : Text) (root : Element)
    (hread : (Element.ofText {} (.text Marker.slashes) t).document = .ok root) :
    ∃ tree, (Conversion.ofText {} t).result = .ok tree ∧
      (tree.ofTexts.violations? (Source.ofText t) = some [] ↔ tree.LeavesInOrder) ∧
      (root.Every (Element.IsPlain (Source.ofText t) Marker.slashes) →
        (tree.ofTexts.violations? (Source.ofText t) = some [] ↔
          root.Every (Element.TermsFirst (Source.ofText t) Marker.slashes))) := by
  have hresult : (Conversion.ofText {} t).result
      = .ok ((Rules.locating {} t).document true root).1 := Conversion.result_ofText rfl hread
  rw [Element.document_ofText] at hread
  have hreturn : '\r' ∉ Marker.slashes := by decide
  have hlevels := ((Source.ofText t).start Marker.slashes).readDocument_hasLevels
    ⟨{}, Marker.slashes⟩ true t
  obtain ⟨top, blocks, attributes, low, high, hroot, htitle, hlow, hblocks, hhigh⟩ :=
    Cursor.readDocument_onLines hreturn ⟨{}, Marker.slashes⟩
      (c := (Source.ofText t).start Marker.slashes) (List.suffix_refl _) t
  dsimp only at hread
  split at hread
  · obtain rfl := Except.ok.inj hread
    rw [hroot] at hresult hlevels ⊢
    refine ⟨_, hresult, ?_⟩
    have hinOrder := Locating.document_inOrder_iff (Rules.locating {} t) rfl hreturn (some 1)
      attributes t htitle hlow hblocks hhigh
    have hsound := Locating.convert_sound (Rules.locating {} t)
      ⟨1, (Source.ofText t).count, true, 0⟩ hlevels
    rcases (Rules.locating {} t).document_eq true (some 1) top blocks attributes t with
      ⟨hnone, hempty⟩ | hone
    · rw [hempty]
      have hvalid := Node.violations?_emptyDocument (Source.ofText t)
      have hleaves := Converted.leavesInOrder_of_nodes_eq_nil hnone
      exact ⟨iff_of_true hvalid .nil, fun hplain =>
        iff_of_true hvalid ((hinOrder hplain).mp hleaves)⟩
    · have hvalid := (hsound _ (hone ▸ List.mem_singleton_self _)).violations?_eq_nil_iff_leavesInOrder
      refine ⟨hvalid, fun hplain => hvalid.trans (Iff.trans ?_ (hinOrder hplain))⟩
      rw [Converted.LeavesInOrder, Converted.leaves, hone, List.flatMap_singleton]
      rfl
  · cases hread

/-- A description is found inside its term if it repeats it. -/
theorem convert_repeated_term :
    ∃ tree, (Conversion.ofText {} "a:: a".toList).result = .ok tree ∧
      tree.ofTexts.violations? (Source.ofText "a:: a".toList) ≠ some [] := by
  have hread : (Element.ofText {} (.text Marker.slashes) "a:: a".toList).document
      = .ok (.document (some 1) none [.descriptionList (some 1) "::".toList
        [⟨[.item (some 1) (some ['a']) none []], some (.item (some 1) (some ['a']) none [])⟩]]
        [] "a:: a".toList) := by
    with_unfolding_all rfl
  obtain ⟨tree, hresult, -, hplain⟩ := convert_valid_iff _ _ hread
  refine ⟨tree, hresult, fun hvalid => ?_⟩
  have hbehind := (hplain ?_).mp hvalid
  · have hlist := (hbehind.part (List.mem_singleton_self _)).self
    have hitem := hlist _ (List.mem_singleton_self _) _ (List.mem_singleton_self _) _ rfl rfl
    exact absurd (show 1 ≤ 0 from hitem) (by decide)
  · refine .intro trivial fun x hx => ?_
    obtain rfl := List.mem_singleton.mp hx
    refine .intro trivial fun x hx => ?_
    obtain rfl : x = .item (some 1) (some ['a']) none [] := by
      simpa [Element.parts, Entry.items] using hx
    exact .intro trivial (by simp [Element.parts])

end Asciidoc
