import Asciidoc.Conversion
import Asciidoc.Proofs.Node.Kept
import Asciidoc.Proofs.Span.Found

/-!
# Converted nodes are where they say

A node is placed in a text when its location is one of the text, its range is that of the
location and leads back to it, its source text is what the range covers unless its kind has
none, and its location is that of its children from the first to the last; nodes without
children run forwards.

Every node of everything an element becomes is placed, whatever the element tree and the window
(`convert_placed`). Each of the constructions that make nodes keeps the property: a node at a
location that was found, and a node from its first child to its last. Hints, windows, the
order in which the children of an item are put and the column at which a cell is searched play
no part.
-/

namespace Asciidoc

open Text

/-- A node that is where it says, with what the text has there. -/
structure Node.PlacedIn (s : Source) (n : Node Text) : Prop where
  /-- Both ends are positions of the text. -/
  hasLocation : s.HasLocation n.loc
  /-- The range is that of the location. -/
  range_eq : s.range? n.loc = some n.range
  /-- The start of the range leads back to the location. -/
  position_start : s.position n.range.start = n.loc.start
  /-- And so does its end. -/
  position_stop : s.position n.range.stop = n.loc.stop
  /-- The source text is what the range covers, unless the kind has no form of its own. -/
  raw_eq : n.raw = if n.kind.isSynthetic then none else some (s.slice n.range)
  /-- Pieces of text and listings have no children and run forwards. -/
  leaf : n.kind.isLeaf = true → n.children = [] ∧ n.range.start ≤ n.range.stop
  /-- All other nodes run from their first child to their last. -/
  parent : n.kind.isLeaf = false → ∃ first last,
    n.children.head? = some first ∧ n.children.getLast? = some last ∧
      n.loc.start = first.loc.start ∧ n.loc.stop = last.loc.stop

namespace Locating

variable {env : Locating} {kind : Node.Kind Text} {loc : Location} {children : List (Node Text)}
  {n : Node Text}

/-- A node at a location of the text is placed if its children are as its kind asks for. -/
theorem node?_placed (h : env.node? kind loc children = some n) (hloc : env.source.HasLocation loc)
    (hleaf : kind.isLeaf = true → children = [] ∧ n.range.start ≤ n.range.stop)
    (hparent : kind.isLeaf = false → ∃ first last,
      children.head? = some first ∧ children.getLast? = some last ∧
        loc.start = first.loc.start ∧ loc.stop = last.loc.stop) : n.PlacedIn env.source := by
  obtain ⟨rfl, rfl, rfl, hrange, hraw⟩ := node?_eq_some h
  obtain ⟨range, hr, hstart, hstop⟩ := hloc.range
  obtain rfl : range = n.range := Option.some.inj (hr ▸ hrange)
  exact ⟨hloc, hrange, hstart, hstop, hraw, hleaf, hparent⟩

/-- What is found for an element is in the text. -/
theorem find_eq_ok {what : Text} {line : Hint} {expected : List Text} {w : Window}
    (h : env.find what line expected w = .ok loc) :
    env.source.find? env.marker.textD expected w = some loc := by
  rw [find] at h
  split at h
  · cases h
  · split at h
    · obtain rfl := Except.ok.inj h
      assumption
    · cases h

/-- A container around placed nodes is placed. -/
theorem gather_placed {inside : Converted} (hkind : kind.HoldsNodes)
    (h : inside.Every (Node.PlacedIn env.source)) :
    (env.gather kind inside).Every (Node.PlacedIn env.source) := by
  refine gather_every h fun n haround => ?_
  obtain ⟨first, last, hfirst, hlast, hnode⟩ := around?_eq_some haround
  have hat (m : Node Text) (hm : m ∈ inside.nodes) := h m hm m m.mem_preorder_self
  have hloc : env.source.HasLocation ⟨first.loc.start, last.loc.stop⟩ :=
    ⟨(hat first (List.mem_of_head? hfirst)).hasLocation.1,
      (hat last (List.mem_of_getLast? hlast)).hasLocation.2⟩
  exact node?_placed hnode hloc (fun hleaf => by cases hkind <;> cases hleaf)
    (fun _ => ⟨first, last, hfirst, hlast, rfl, rfl⟩)

/-- A piece of text and the node around it are placed where the text is found. -/
theorem textNode_placed {outer : Node.Kind Text} (houter : outer.HoldsText fun _ => True)
    (what : Text) (line : Hint) (value : Text) (expected : List Text) (w : Window) :
    (env.textNode outer what line value expected w).Every (Node.PlacedIn env.source) := by
  refine textNode_every fun loc leaf n hfind hleaf hnode => ?_
  have hfound := find_eq_ok hfind
  have hloc := Source.find?_hasLocation hfound
  obtain ⟨-, hleafloc, -, hrange, -⟩ := node?_eq_some hleaf
  refine ⟨node?_placed hleaf hloc (fun _ => ⟨rfl, Source.find?_ordered hfound hrange⟩)
    (fun h => by cases h), node?_placed hnode hloc (fun h => by cases houter <;> cases h)
      (fun _ => ⟨leaf, leaf, rfl, rfl, by rw [hleafloc], by rw [hleafloc]⟩)⟩

/-- A listing is placed where its lines are found. -/
theorem listing_placed (line : Hint) (lines : List Text) (language : Option Text) (w : Window) :
    (env.listing line lines language w).Every (Node.PlacedIn env.source) := by
  refine listing_every fun loc n hfind hnode => ?_
  have hfound := find_eq_ok hfind
  obtain ⟨-, -, -, hrange, -⟩ := node?_eq_some hnode
  exact node?_placed hnode (Source.find?_hasLocation hfound)
    (fun _ => ⟨rfl, Source.find?_ordered hfound hrange⟩) (fun h => by cases h)

/-- Being placed is kept by everything that makes nodes. -/
theorem keeps_placed (env : Locating) :
    env.Keeps (fun _ => True) (Node.PlacedIn env.source) where
  gather := gather_placed
  textNode := textNode_placed
  listing := listing_placed

/-- The document of an element is one of the nodes it becomes, or the empty document. -/
theorem document_mem (env : Locating) (skipComments : Bool) (e : Element) :
    (env.document skipComments e).1 = Node.emptyDocument ∨
      (env.document skipComments e).1
        ∈ (env.convert ⟨1, env.source.count, skipComments, 0⟩ e).nodes := by
  rw [document]
  dsimp only
  split
  · split
    · rename_i h _
      exact .inr (h ▸ List.mem_cons_self)
    · exact .inl rfl
  · exact .inl rfl

end Locating

/-- What a conversion comes to is the document of what was read. -/
theorem Conversion.ofText_eq_ok {rules : Rules} {t : Text} {n : Node Text}
    (h : (Conversion.ofText rules t).result = .ok n) :
    ∃ root, (Element.ofText rules.reading rules.marker t).document = .ok root ∧
      n = ((rules.locating t).document rules.skipComments root).1 := by
  rw [Conversion.ofText] at h
  cases hread : (Element.ofText rules.reading rules.marker t).document with
  | error fault =>
    rw [hread] at h
    cases h
  | ok root =>
    rw [hread] at h
    refine ⟨root, rfl, ?_⟩
    dsimp only [Conversion.ofElement, Conversion.ofLosses] at h
    split at h
    · cases h
    · exact (Except.ok.inj h).symm

/-- The nodes of a converted tree are placed in the text, if anything was converted. -/
theorem Conversion.placed_of_ofText {rules : Rules} {t : Text} {root n : Node Text}
    (h : (Conversion.ofText rules t).result = .ok root) (hn : n ∈ root.preorder) :
    n = Node.emptyDocument ∨ n.PlacedIn (Source.ofText t) := by
  obtain ⟨element, -, rfl⟩ := Conversion.ofText_eq_ok h
  rcases (rules.locating t).document_mem rules.skipComments element with hempty | hnode
  · rw [hempty] at hn
    rcases Node.mem_preorder.mp hn with rfl | ⟨child, hchild, -⟩
    · exact .inl rfl
    · cases hchild
  · have hplaced := Locating.convert_every (rules.locating t).keeps_placed trivial
      ⟨1, (rules.locating t).source.count, rules.skipComments, 0⟩ element
      element.every_titledBy_true
    exact .inr (hplaced _ hnode n hn)

/-- Every node of what an element becomes is placed in the text, for every element tree with
whatever hints, every window and all rules. -/
theorem convert_placed (rules : Rules) (t : Text) (w : Window) (e : Element) :
    ((rules.locating t).convert w e).Every (Node.PlacedIn (Source.ofText t)) :=
  Locating.convert_every (rules.locating t).keeps_placed trivial w e e.every_titledBy_true

end Asciidoc
