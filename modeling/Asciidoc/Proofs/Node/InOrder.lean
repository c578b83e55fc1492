import Asciidoc.Proofs.Node.Placed
import Asciidoc.Proofs.Node.Told

/-!
# When a converted tree is found in order

The validator asks eight things of a tree. Of a tree whose nodes are placed, seven of them hold
once one does: that the pieces of text and the listings, gone through in preorder, stand in the
text one after the other. `violations?_eq_nil_iff` says so for every such tree.

One direction carries the places of the leaves up the tree: a node runs from the start of its
first leaf to the end of its last, so leaves in order put the children of every node in order,
and the children of a node inside it. The other carries the places of siblings down to the
leaves below them.
-/

namespace Asciidoc

namespace Node

/-! ## What the validator finds in a node -/

variable {s : Source} {κ : Type}

/-- Siblings are found in order when they are inside their parent, start after what was reached
before them, and each ends before those after it start. -/
theorem siblingViolations_eq_nil_iff {parent : Node (Json κ)} {reached : Int}
    {children : List (Node (Json κ))} :
    siblingViolations parent reached children = [] ↔
      (∀ child ∈ children, parent.range.start ≤ child.range.start ∧
        child.range.stop ≤ parent.range.stop ∧ reached ≤ child.range.start) ∧
      children.Pairwise fun a b => a.range.stop ≤ b.range.start := by
  induction children generalizing reached with
  | nil => simp [siblingViolations]
  | cons child rest ih =>
    rw [siblingViolations, List.append_eq_nil_iff, List.append_eq_nil_iff, ih, List.pairwise_cons,
      List.forall_mem_cons]
    constructor
    · rintro ⟨⟨hinside, hreached⟩, hrest, hpairwise⟩
      have hinside' : parent.range.start ≤ child.range.start ∧
          child.range.stop ≤ parent.range.stop := by
        by_contra hne
        rw [if_pos (by omega)] at hinside
        cases hinside
      have hreached' : reached ≤ child.range.start := by
        by_contra hne
        rw [if_pos (by omega)] at hreached
        cases hreached
      refine ⟨⟨⟨hinside'.1, hinside'.2, hreached'⟩, fun c hc => ?_⟩, fun c hc => ?_, hpairwise⟩
      · obtain ⟨h1, h2, h3⟩ := hrest c hc
        exact ⟨h1, h2, by omega⟩
      · have := (hrest c hc).2.2
        omega
    · rintro ⟨⟨⟨h1, h2, h3⟩, hrest⟩, hafter, hpairwise⟩
      refine ⟨⟨if_neg (by omega), if_neg (by omega)⟩, fun c hc => ?_, hpairwise⟩
      obtain ⟨h1, h2, h3⟩ := hrest c hc
      have := hafter c hc
      exact ⟨h1, h2, by omega⟩

/-- The depth of a title is at least one. -/
def HasDepth (n : Node Text) : Prop := ∀ depth, n.kind = .header depth → 1 ≤ depth

theorem PlacedIn.range_bounds {n : Node Text} (h : n.PlacedIn s) :
    0 ≤ n.range.start ∧ n.range.start ≤ s.text.length ∧ 0 ≤ n.range.stop ∧
      n.range.stop ≤ s.text.length := by
  obtain ⟨hstart, hstop⟩ := Source.range?_eq_some h.range_eq
  have h1 := h.hasLocation.1.offset_le hstart
  have h2 := h.hasLocation.2.offset_le hstop
  exact ⟨h1.1, h1.2, h2.1, h2.2⟩

/-- The source text of a placed node is what stands there. -/
theorem PlacedIn.isText {n : Node Text} (h : n.PlacedIn s) {raw : Json}
    (hraw : n.ofTexts.raw = some raw) : raw.isText (s.slice n.range) = true := by
  rw [ofTexts, raw_map, h.raw_eq] at hraw
  split at hraw
  · cases hraw
  · obtain rfl : Json.string (s.slice n.range) = raw := by simpa using hraw
    simp [Json.isText, Json.text?]

/-- Where a placed node stands is found in order when its range is not turned around. -/
theorem PlacedIn.spanViolations?_eq_nil_iff {n : Node Text} (h : n.PlacedIn s) :
    n.ofTexts.spanViolations? s = some [] ↔ n.range.start ≤ n.range.stop := by
  have hbounds := h.range_bounds
  have hrange : n.ofTexts.range = n.range := range_map _ n
  have hloc : n.ofTexts.loc = n.loc := loc_map _ n
  rw [spanViolations?, hrange, hloc, h.range_eq]
  by_cases horder : n.range.start ≤ n.range.stop
  · rw [if_neg (by omega)]
    simp only [Option.map_some, if_true, List.nil_append, Option.some.injEq, horder, iff_true]
    split
    · rfl
    · rename_i raw hraw
      rw [h.isText hraw, Bool.or_true, if_pos rfl]
  · rw [if_pos (by omega)]
    simp [horder]

/-! ## Leaves -/

/-- The pieces of text and the listings of a tree, in preorder. -/
def leaves {α : Type} (n : Node α) : List (Node α) := n.preorder.filter (·.kind.isLeaf)

/-- The pieces of text and the listings of a tree stand one after the other. -/
def LeavesInOrder {α : Type} (n : Node α) : Prop :=
  n.leaves.Pairwise fun a b => a.range.stop ≤ b.range.start

/-- Every node of a tree is where it says. -/
def AllPlaced (s : Source) (n : Node Text) : Prop := ∀ m ∈ n.preorder, m.PlacedIn s

/-- A tree as a conversion makes it: all nodes are placed, and titles have a depth. -/
structure Sound (s : Source) (n : Node Text) : Prop where
  /-- Every node is where it says. -/
  placed : n.AllPlaced s
  /-- Every title has a depth. -/
  hasDepth : ∀ m ∈ n.preorder, m.HasDepth

variable {n : Node Text}

theorem AllPlaced.self (h : n.AllPlaced s) : n.PlacedIn s := h n n.mem_preorder_self

theorem AllPlaced.child (h : n.AllPlaced s) {child : Node Text} (hchild : child ∈ n.children) :
    child.AllPlaced s :=
  fun m hm => h m (mem_preorder_of_child hchild hm)

theorem Sound.self (h : n.Sound s) : n.PlacedIn s := h.placed.self

theorem Sound.child (h : n.Sound s) {child : Node Text} (hchild : child ∈ n.children) :
    child.Sound s :=
  ⟨h.placed.child hchild, fun m hm => h.hasDepth m (mem_preorder_of_child hchild hm)⟩

/-- A placed node without the kind of a leaf starts with its first child and ends with its
last. -/
theorem AllPlaced.ends (h : n.AllPlaced s) (hkind : n.kind.isLeaf = false) :
    ∃ first last, n.children.head? = some first ∧ n.children.getLast? = some last ∧
      n.range.start = first.range.start ∧ n.range.stop = last.range.stop := by
  obtain ⟨first, last, hfirst, hlast, hstart, hstop⟩ := h.self.parent hkind
  have hn := Source.range?_eq_some h.self.range_eq
  have hf := Source.range?_eq_some (h.child (List.mem_of_head? hfirst)).self.range_eq
  have hl := Source.range?_eq_some (h.child (List.mem_of_getLast? hlast)).self.range_eq
  refine ⟨first, last, hfirst, hlast, ?_, ?_⟩
  · exact Option.some.inj (hn.1.symm.trans (hstart ▸ hf.1))
  · exact Option.some.inj (hn.2.symm.trans (hstop ▸ hl.2))

theorem Sound.kindViolations_eq_nil (h : n.Sound s) : n.ofTexts.kindViolations = [] := by
  have hdepth : n.HasDepth := h.hasDepth n n.mem_preorder_self
  have hkind : n.ofTexts.kind = n.kind.map Json.string := kind_map _ n
  have hchildren : n.ofTexts.children = n.children.map ofTexts := children_map _ n
  rw [kindViolations, hkind]
  cases hn : n.kind with
  | header depth =>
    have := hdepth depth hn
    simp only [Kind.map, if_neg (show ¬ depth < 1 by omega)]
  | str value =>
    have := (h.self.leaf (by rw [hn]; rfl)).1
    simp [Kind.map, hchildren, this]
  | document | paragraph | list | listItem | blockQuote | codeBlock _ _ | table | tableRow
  | tableCell => rfl

theorem Sound.familyViolations_eq_nil_iff (h : n.Sound s) :
    n.ofTexts.familyViolations = [] ↔
      (∀ child ∈ n.children,
        n.range.start ≤ child.range.start ∧ child.range.stop ≤ n.range.stop) ∧
      n.children.Pairwise fun a b => a.range.stop ≤ b.range.start := by
  have hrange : n.ofTexts.range = n.range := range_map _ n
  have hloc : n.ofTexts.loc = n.loc := loc_map _ n
  have hchildren : n.ofTexts.children = n.children.map ofTexts := children_map _ n
  have hinside : (∀ child ∈ n.children.map ofTexts, n.ofTexts.range.start ≤ child.range.start ∧
        child.range.stop ≤ n.ofTexts.range.stop ∧ n.ofTexts.range.start ≤ child.range.start) ↔
      ∀ child ∈ n.children,
        n.range.start ≤ child.range.start ∧ child.range.stop ≤ n.range.stop := by
    rw [List.forall_mem_map]
    refine forall₂_congr fun child _ => ?_
    rw [hrange, show child.ofTexts.range = child.range from range_map _ child]
    omega
  have hpairwise : (n.children.map ofTexts).Pairwise (fun a b => a.range.stop ≤ b.range.start) ↔
      n.children.Pairwise fun a b => a.range.stop ≤ b.range.start := by
    simp [List.pairwise_map, ofTexts]
  rw [familyViolations, hchildren]
  cases hkind : n.kind.isLeaf with
  | true => simp [(h.self.leaf hkind).1]
  | false =>
    obtain ⟨first, last, hfirst, hlast, hstart, hstop⟩ := h.self.parent hkind
    have hends : ¬ (n.ofTexts.loc.start ≠ first.ofTexts.loc.start ∨
        n.ofTexts.loc.stop ≠ last.ofTexts.loc.stop) := by
      simp [ofTexts, hstart, hstop]
    simp only [List.head?_map, hfirst, List.getLast?_map, hlast, Option.map_some]
    rw [if_neg hends, List.nil_append, siblingViolations_eq_nil_iff, hinside, hpairwise]

/-- What the validator asks of a sound node: that it is not turned around, that its children are
inside it one after the other, and the same of each of them. -/
theorem Sound.violations?_eq_nil_iff (h : n.Sound s) :
    n.ofTexts.violations? s = some [] ↔
      n.range.start ≤ n.range.stop ∧
      ((∀ child ∈ n.children,
        n.range.start ≤ child.range.start ∧ child.range.stop ≤ n.range.stop) ∧
        n.children.Pairwise fun a b => a.range.stop ≤ b.range.start) ∧
      ∀ child ∈ n.children, child.ofTexts.violations? s = some [] := by
  have hchildren : n.ofTexts.children = n.children.map ofTexts := children_map _ n
  rw [← h.familyViolations_eq_nil_iff, ← h.self.spanViolations?_eq_nil_iff, violations?_eq_nil_step,
    hchildren, List.forall_mem_map, h.kindViolations_eq_nil]
  cases hopen : n.ofTexts.isOpen with
  | true => simp
  | false =>
    have hleaf : n.children = [] := by
      have hkind : n.ofTexts.kind = n.kind.map Json.string := kind_map _ n
      rw [isOpen, hkind] at hopen
      cases hn : n.kind with
      | str value => exact (h.self.leaf (by rw [hn]; rfl)).1
      | document | header _ | paragraph | list | listItem | blockQuote | codeBlock _ _ | table
      | tableRow | tableCell => simp [hn, Kind.map] at hopen
    have hfamily : n.ofTexts.familyViolations = [] := by simp [familyViolations, hchildren, hleaf]
    simp [hfamily, hleaf]

theorem leaves_of_isLeaf (h : n.AllPlaced s) (hkind : n.kind.isLeaf = true) : n.leaves = [n] := by
  rw [leaves, preorder_eq, (h.self.leaf hkind).1]
  simp [preorderAll, hkind]

theorem leaves_of_not_isLeaf {α : Type} {n : Node α} (hkind : n.kind.isLeaf = false) :
    n.leaves = n.children.flatMap leaves := by
  have hall (ns : List (Node α)) :
      (preorderAll ns).filter (·.kind.isLeaf) = ns.flatMap leaves := by
    induction ns with
    | nil => rfl
    | cons n rest ih => rw [preorderAll, List.filter_append, ih, List.flatMap_cons, leaves]
  rw [leaves, preorder_eq, List.filter_cons_of_neg (by simp [hkind]), hall]

/-- A placed node runs from the start of its first leaf to the end of its last. -/
theorem AllPlaced.leafEnds (h : n.AllPlaced s) :
    ∃ first last, n.leaves.head? = some first ∧ n.leaves.getLast? = some last ∧
      n.range.start = first.range.start ∧ n.range.stop = last.range.stop := by
  induction n using induction with
  | step n ih =>
    cases hkind : n.kind.isLeaf with
    | true =>
      rw [leaves_of_isLeaf h hkind]
      exact ⟨n, n, rfl, rfl, rfl, rfl⟩
    | false =>
      obtain ⟨first, last, hfirst, hlast, hstart, hstop⟩ := h.ends hkind
      have hmemFirst := List.mem_of_head? hfirst
      have hmemLast := List.mem_of_getLast? hlast
      obtain ⟨a, -, ha, -, hastart, -⟩ := ih first hmemFirst (h.child hmemFirst)
      obtain ⟨-, b, -, hb, -, hbstop⟩ := ih last hmemLast (h.child hmemLast)
      refine ⟨a, b, ?_, ?_, hstart.trans hastart, hstop.trans hbstop⟩
      · obtain ⟨rest, hrest⟩ := List.head?_eq_some_iff.mp hfirst
        rw [leaves_of_not_isLeaf hkind, hrest, List.flatMap_cons, List.head?_append, ha]
        rfl
      · obtain ⟨before, hbefore⟩ := List.getLast?_eq_some_iff.mp hlast
        rw [leaves_of_not_isLeaf hkind, hbefore, List.flatMap_append, List.getLast?_append]
        simp [hb]

theorem AllPlaced.leaf_ordered (h : n.AllPlaced s) {m : Node Text} (hm : m ∈ n.leaves) :
    m.range.start ≤ m.range.stop := by
  obtain ⟨hmem, hkind⟩ := List.mem_filter.mp hm
  exact ((h m hmem).leaf hkind).2

/-- All leaves of a placed tree with leaves in order are inside its root. -/
theorem AllPlaced.inside_of_leavesInOrder (h : n.AllPlaced s) (horder : n.LeavesInOrder) :
    n.range.start ≤ n.range.stop ∧
      ∀ m ∈ n.leaves, n.range.start ≤ m.range.start ∧ m.range.stop ≤ n.range.stop := by
  obtain ⟨first, last, hfirst, hlast, hstart, hstop⟩ := h.leafEnds
  obtain ⟨rest, hrest⟩ := List.head?_eq_some_iff.mp hfirst
  obtain ⟨before, hbefore⟩ := List.getLast?_eq_some_iff.mp hlast
  have hleaf (m : Node Text) (hm : m ∈ n.leaves) := h.leaf_ordered hm
  have hafterFirst : ∀ m ∈ n.leaves, first.range.start ≤ m.range.start := by
    intro m hm
    have horder' : (first :: rest).Pairwise fun a b => a.range.stop ≤ b.range.start :=
      hrest ▸ horder
    rw [hrest] at hm
    rcases List.mem_cons.mp hm with rfl | hm
    · exact Int.le_refl _
    · have := (List.pairwise_cons.mp horder').1 m hm
      have := hleaf first (List.mem_of_head? hfirst)
      omega
  have hbeforeLast : ∀ m ∈ n.leaves, m.range.stop ≤ last.range.stop := by
    intro m hm
    have horder' : (before ++ [last]).Pairwise fun a b => a.range.stop ≤ b.range.start :=
      hbefore ▸ horder
    rw [hbefore] at hm
    rcases List.mem_append.mp hm with hm | hm
    · have := (List.pairwise_append.mp horder').2.2 m hm last (by simp)
      have := hleaf last (List.mem_of_getLast? hlast)
      omega
    · obtain rfl := List.mem_singleton.mp hm
      exact Int.le_refl _
  have hends := hbeforeLast first (List.mem_of_head? hfirst)
  have := hleaf first (List.mem_of_head? hfirst)
  rw [hstart, hstop]
  exact ⟨by omega, fun m hm => ⟨hafterFirst m hm, hbeforeLast m hm⟩⟩

/-- A tree in which nothing is found wrong has its leaves in order, all of them inside its
root. -/
theorem Sound.leavesInOrder (h : n.Sound s) (hvalid : n.ofTexts.violations? s = some []) :
    n.LeavesInOrder ∧
      ∀ m ∈ n.leaves, n.range.start ≤ m.range.start ∧ m.range.stop ≤ n.range.stop := by
  induction n using induction with
  | step n ih =>
    obtain ⟨hrange, ⟨hinside, hsiblings⟩, hchildren⟩ := h.violations?_eq_nil_iff.mp hvalid
    cases hkind : n.kind.isLeaf with
    | true =>
      rw [LeavesInOrder, leaves_of_isLeaf h.placed hkind]
      refine ⟨List.pairwise_singleton _ _, fun m hm => ?_⟩
      obtain rfl := List.mem_singleton.mp hm
      exact ⟨Int.le_refl _, Int.le_refl _⟩
    | false =>
      have hbelow (child : Node Text) (hchild : child ∈ n.children) :=
        ih child hchild (h.child hchild) (hchildren child hchild)
      rw [LeavesInOrder, leaves_of_not_isLeaf hkind]
      constructor
      · refine List.pairwise_flatMap.mpr ⟨fun child hchild => (hbelow child hchild).1, ?_⟩
        -- Leaves of two children are apart because the children are.
        refine hsiblings.imp_of_mem fun {a b} ha hb hab x hx y hy => ?_
        have hx' := (hbelow a ha).2 x hx
        have hy' := (hbelow b hb).2 y hy
        omega
      · intro m hm
        obtain ⟨child, hchild, hm⟩ := List.mem_flatMap.mp hm
        have hm' := (hbelow child hchild).2 m hm
        have hchild' := hinside child hchild
        omega

/-- Nothing is found wrong in a sound tree with its leaves in order. -/
theorem Sound.violations?_eq_nil (h : n.Sound s) (horder : n.LeavesInOrder) :
    n.ofTexts.violations? s = some [] := by
  induction n using induction with
  | step n ih =>
    obtain ⟨hrange, hinside⟩ := h.placed.inside_of_leavesInOrder horder
    rw [h.violations?_eq_nil_iff]
    cases hkind : n.kind.isLeaf with
    | true => simp [(h.self.leaf hkind).1, hrange]
    | false =>
      rw [LeavesInOrder, leaves_of_not_isLeaf hkind, List.pairwise_flatMap] at horder
      obtain ⟨hwithin, hbetween⟩ := horder
      have hmem {child m : Node Text} (hchild : child ∈ n.children) (hm : m ∈ child.leaves) :
          m ∈ n.leaves := by
        rw [leaves_of_not_isLeaf hkind]
        exact List.mem_flatMap.mpr ⟨child, hchild, hm⟩
      refine ⟨hrange, ⟨fun child hchild => ?_, ?_⟩,
        fun child hchild => ih child hchild (h.child hchild) (hwithin child hchild)⟩
      · obtain ⟨first, last, hfirst, hlast, hstart, hstop⟩ := (h.child hchild).placed.leafEnds
        have hf := hinside first (hmem hchild (List.mem_of_head? hfirst))
        have hl := hinside last (hmem hchild (List.mem_of_getLast? hlast))
        omega
      · refine hbetween.imp_of_mem fun {a b} ha hb hab => ?_
        obtain ⟨-, last, -, hlast, -, hstop⟩ := (h.child ha).placed.leafEnds
        obtain ⟨first, -, hfirst, -, hstart, -⟩ := (h.child hb).placed.leafEnds
        have := hab last (List.mem_of_getLast? hlast) first (List.mem_of_head? hfirst)
        omega

/-- Nothing is found wrong in a sound tree exactly when its leaves are in order. -/
theorem Sound.violations?_eq_nil_iff_leavesInOrder (h : n.Sound s) :
    n.ofTexts.violations? s = some [] ↔ n.LeavesInOrder :=
  ⟨fun hvalid => (h.leavesInOrder hvalid).1, h.violations?_eq_nil⟩

end Node

end Asciidoc
