import Asciidoc.Proofs.Node.InOrder

/-!
# What the validator asks of a tree as a whole

The validator holds a child against its parent and against the furthest end of the siblings before
it, and never two nodes that are further apart. That is enough: it finds nothing wrong exactly when
every node is right by itself, every node lies inside all nodes above it, and of two nodes of which
neither is above the other the first in preorder ends before the second starts
(`violations?_exact`). Nothing is assumed of the tree.

Which node of a tree is meant is said by its path, the indices of the children that lead to it from
the root: a node is above another if its path begins the other's, and preorder is the order of
paths as lists of numbers (`map_at?_paths`, `pairwise_paths`). Two paths that neither begins part at
some node, and the validator has held the two children of it against each other.
-/

namespace Asciidoc

open Text

namespace Node

/-! ## Paths -/

section Paths

variable {α : Type} {n m : Node α}

/-- The node that a path leads to, by the index of a child at every step. -/
def at? (n : Node α) : List Nat → Option (Node α)
  | [] => some n
  | index :: path => n.children[index]?.bind fun child => child.at? path

theorem at?_append (n : Node α) (path more : List Nat) :
    n.at? (path ++ more) = (n.at? path).bind fun m => m.at? more := by
  induction path generalizing n with
  | nil => rfl
  | cons index path ih =>
    rw [List.cons_append, at?, at?, Option.bind_assoc]
    exact Option.bind_congr fun child _ => ih child

/-- The nodes of a tree are those that paths lead to. -/
theorem mem_preorder_iff_at? : m ∈ n.preorder ↔ ∃ path, n.at? path = some m := by
  induction n using induction with
  | step n ih =>
    rw [mem_preorder]
    constructor
    · rintro (rfl | ⟨child, hchild, hm⟩)
      · exact ⟨[], rfl⟩
      · obtain ⟨path, hpath⟩ := (ih child hchild).mp hm
        obtain ⟨index, hindex⟩ := List.mem_iff_getElem?.mp hchild
        exact ⟨index :: path, by rw [at?, hindex, Option.bind_some, hpath]⟩
    · rintro ⟨path, hpath⟩
      cases path with
      | nil => exact .inl (Option.some.inj hpath).symm
      | cons index path =>
        obtain ⟨child, hchild, hm⟩ := Option.bind_eq_some_iff.mp hpath
        have hmem := List.mem_of_getElem? hchild
        exact .inr ⟨child, hmem, (ih child hmem).mpr ⟨path, hm⟩⟩

mutual

/-- The paths of a tree in preorder. -/
def paths : Node α → List (List Nat)
  | .mk _ _ _ _ children => [] :: pathsFrom 0 children

/-- The paths that lead to nodes of trees that are children from an index on. -/
def pathsFrom (index : Nat) : List (Node α) → List (List Nat)
  | [] => []
  | n :: rest => n.paths.map (index :: ·) ++ pathsFrom (index + 1) rest

end

theorem paths_eq (n : Node α) : n.paths = [] :: pathsFrom 0 n.children := by
  cases n
  rfl

theorem exists_of_mem_pathsFrom {index : Nat} {ns : List (Node α)} {path : List Nat}
    (h : path ∈ pathsFrom index ns) : ∃ other rest, path = other :: rest ∧ index ≤ other := by
  induction ns generalizing index with
  | nil => cases h
  | cons n ns ih =>
    rcases List.mem_append.mp h with h | h
    · obtain ⟨rest, -, rfl⟩ := List.mem_map.mp h
      exact ⟨index, rest, rfl, Nat.le_refl _⟩
    · obtain ⟨other, rest, rfl, hle⟩ := ih h
      exact ⟨other, rest, rfl, Nat.le_of_succ_le hle⟩

/-- Preorder is the order of paths as lists of numbers. -/
theorem pairwise_paths (n : Node α) : n.paths.Pairwise (· < ·) := by
  induction n using induction with
  | step n ih =>
    have hfrom (index : Nat) (ns : List (Node α)) (h : ∀ m ∈ ns, m.paths.Pairwise (· < ·)) :
        (pathsFrom index ns).Pairwise (· < ·) := by
      induction ns generalizing index with
      | nil => exact .nil
      | cons m ns ihns =>
        obtain ⟨hm, hns⟩ := List.forall_mem_cons.mp h
        refine List.pairwise_append.mpr ⟨List.pairwise_map.mpr (hm.imp fun hlt => ?_),
          ihns (index + 1) hns, fun path hpath other hother => ?_⟩
        · exact List.cons_lt_cons_iff.mpr (.inr ⟨rfl, hlt⟩)
        · obtain ⟨rest, -, rfl⟩ := List.mem_map.mp hpath
          obtain ⟨later, rest', rfl, hle⟩ := exists_of_mem_pathsFrom hother
          exact List.cons_lt_cons_iff.mpr (.inl hle)
    rw [paths_eq]
    refine List.pairwise_cons.mpr ⟨fun path hpath => ?_, hfrom 0 n.children ih⟩
    obtain ⟨index, rest, rfl, -⟩ := exists_of_mem_pathsFrom hpath
    exact List.nil_lt_cons index rest

/-- The paths of a tree lead to its nodes in preorder. -/
theorem map_at?_paths (n : Node α) : n.paths.map n.at? = n.preorder.map some := by
  induction n using induction with
  | step n ih =>
    have hfrom (before ns : List (Node α)) (h : n.children = before ++ ns) :
        (pathsFrom before.length ns).map n.at? = (preorderAll ns).map some := by
      induction ns generalizing before with
      | nil => rfl
      | cons m ns ihns =>
        have hchild : n.children[before.length]? = some m := by
          rw [h, List.getElem?_append_right (Nat.le_refl _), Nat.sub_self]
          rfl
        have hm : (m.paths.map (before.length :: ·)).map n.at? = m.preorder.map some := by
          rw [List.map_map, ← ih m (List.mem_of_getElem? hchild)]
          refine List.map_congr_left fun path _ => ?_
          rw [Function.comp_apply, at?, hchild, Option.bind_some]
        have hns := ihns (before ++ [m]) (by rw [h, List.append_assoc]; rfl)
        rw [List.length_append] at hns
        rw [pathsFrom, List.map_append, hm, preorderAll, List.map_append]
        exact congrArg _ hns
    rw [paths_eq, preorder_eq, List.map_cons, List.map_cons]
    exact congrArg (some n :: ·) (hfrom [] n.children rfl)

/-- A path before another that it does not begin parts from it at some node, to an earlier
child. -/
theorem exists_fork {path other : List Nat} (hlt : path < other) (h : ¬path <+: other) :
    ∃ common i j rest rest', path = common ++ i :: rest ∧ other = common ++ j :: rest' ∧ i < j := by
  induction path generalizing other with
  | nil => exact absurd List.nil_prefix h
  | cons i path ih =>
    cases other with
    | nil => exact absurd hlt (List.not_lt_nil _)
    | cons j other =>
      rcases List.cons_lt_cons_iff.mp hlt with hij | ⟨rfl, hrest⟩
      · exact ⟨[], i, j, path, other, rfl, rfl, hij⟩
      · obtain ⟨common, a, b, rest, rest', rfl, rfl, hab⟩ :=
          ih hrest fun hprefix => h (List.cons_prefix_cons.mpr ⟨rfl, hprefix⟩)
        exact ⟨i :: common, a, b, rest, rest', rfl, rfl, hab⟩

end Paths

/-! ## From children to all nodes -/

section Nesting

variable {α : Type} {n m k : Node α}

/-- The range of a node lies inside that of another. -/
def IsInside (k m : Node α) : Prop := m.range.start ≤ k.range.start ∧ k.range.stop ≤ m.range.stop

/-- The children of a node lie inside it, one after the other. -/
structure HoldsChildren (n : Node α) : Prop where
  inside : ∀ child ∈ n.children, child.IsInside n
  apart : n.children.Pairwise fun a b => a.range.stop ≤ b.range.start

/-- Every node lies inside those above it. -/
def Nested (n : Node α) : Prop :=
  ∀ path below m k, n.at? path = some m → n.at? below = some k → path <+: below → k.IsInside m

/-- Of two nodes of which neither is above the other the first in preorder ends before the second
starts. -/
def Separate (n : Node α) : Prop :=
  ∀ path later m k, n.at? path = some m → n.at? later = some k → path < later →
    ¬path <+: later → m.range.stop ≤ k.range.start

theorem IsInside.refl (n : Node α) : n.IsInside n := ⟨Int.le_refl _, Int.le_refl _⟩

theorem IsInside.trans (h : k.IsInside m) (hm : m.IsInside n) : k.IsInside n :=
  ⟨Int.le_trans hm.1 h.1, Int.le_trans h.2 hm.2⟩

/-- If all nodes have their children inside them, the root has all nodes inside it. -/
theorem isInside_of_holdsChildren (h : ∀ m ∈ n.preorder, m.HoldsChildren) {path : List Nat}
    (hk : n.at? path = some k) : k.IsInside n := by
  induction path generalizing n with
  | nil =>
    obtain rfl := Option.some.inj hk
    exact .refl n
  | cons index path ih =>
    obtain ⟨child, hchild, hk⟩ := Option.bind_eq_some_iff.mp hk
    have hmem := List.mem_of_getElem? hchild
    exact (ih (fun m hm => h m (mem_preorder_of_child hmem hm)) hk).trans
      ((h n n.mem_preorder_self).inside child hmem)

/-- All nodes have their children inside them, one after the other, exactly if all nodes lie inside
those above them and are separate otherwise. -/
theorem forall_holdsChildren_iff :
    (∀ m ∈ n.preorder, m.HoldsChildren) ↔ n.Nested ∧ n.Separate := by
  have hmem {path : List Nat} {m : Node α} (hm : n.at? path = some m) : m ∈ n.preorder :=
    mem_preorder_iff_at?.mpr ⟨path, hm⟩
  constructor
  · intro h
    have hbelow {path : List Nat} {m k : Node α} {more : List Nat} (hm : n.at? path = some m)
        (hk : m.at? more = some k) : k.IsInside m := by
      refine isInside_of_holdsChildren (fun x hx => ?_) hk
      obtain ⟨rest, hrest⟩ := mem_preorder_iff_at?.mp hx
      have hx : n.at? (path ++ rest) = some x := by
        rw [at?_append, hm, Option.bind_some, hrest]
      exact h x (hmem hx)
    constructor
    · rintro path below m k hm hk ⟨more, rfl⟩
      rw [at?_append, hm, Option.bind_some] at hk
      exact hbelow hm hk
    · intro path later m k hm hk hlt hprefix
      -- Where the two paths part, the validator has looked at both children.
      obtain ⟨common, i, j, rest, rest', rfl, rfl, hij⟩ := exists_fork hlt hprefix
      rw [at?_append] at hm hk
      obtain ⟨fork, hfork, hm⟩ := Option.bind_eq_some_iff.mp hm
      rw [hfork, Option.bind_some] at hk
      obtain ⟨first, hfirst, hm⟩ := Option.bind_eq_some_iff.mp hm
      obtain ⟨second, hsecond, hk⟩ := Option.bind_eq_some_iff.mp hk
      have hat {index : Nat} {child : Node α} (hchild : fork.children[index]? = some child) :
          n.at? (common ++ [index]) = some child := by
        rw [at?_append, hfork, Option.bind_some, at?, hchild]
        rfl
      have hinside := hbelow (hat hfirst) hm
      have hinside' := hbelow (hat hsecond) hk
      obtain ⟨hi, rfl⟩ := List.getElem?_eq_some_iff.mp hfirst
      obtain ⟨hj, rfl⟩ := List.getElem?_eq_some_iff.mp hsecond
      have hsiblings := List.pairwise_iff_getElem.mp (h fork (hmem hfork)).apart i j hi hj hij
      exact Int.le_trans hinside.2 (Int.le_trans hsiblings hinside'.1)
  · rintro ⟨hnested, hseparate⟩ m hm
    obtain ⟨path, hpath⟩ := mem_preorder_iff_at?.mp hm
    have hat (index : Nat) (hindex : index < m.children.length) :
        n.at? (path ++ [index]) = some m.children[index] := by
      rw [at?_append, hpath, Option.bind_some, at?, List.getElem?_eq_getElem hindex]
      rfl
    refine ⟨fun child hchild => ?_, List.pairwise_iff_getElem.mpr fun i j hi hj hij => ?_⟩
    · obtain ⟨index, hindex, rfl⟩ := List.getElem_of_mem hchild
      exact hnested _ _ _ _ hpath (hat index hindex) (List.prefix_append _ _)
    · refine hseparate _ _ _ _ (hat i hi) (hat j hj) ?_ ?_
      · exact List.append_left_lt (List.cons_lt_cons_iff.mpr (.inl hij))
      · intro hprefix
        have := List.cons_prefix_cons.mp ((List.prefix_append_right_inj path).mp hprefix)
        omega

end Nesting

/-! ## What the validator asks of one node -/

section Validator

variable {κ : Type} [DecidableEq κ] [CodePoints κ] {s : Source} {n : Node (Json κ)}

/-- What is right of a node by itself and with its children: its range is ordered, in the text and
that of its location; it covers what it says, where null, false, zeros and what is empty say
nothing; a depth is at least one, and a piece of text has no children; and it starts with its first
child and ends with its last. -/
structure IsExact (s : Source) (n : Node (Json κ)) : Prop where
  ordered : 0 ≤ n.range.start ∧ n.range.start ≤ n.range.stop ∧ n.range.stop ≤ s.text.length
  range_eq : s.range? n.loc = some n.range
  raw : ∀ raw, n.raw = some raw →
    raw.truthy = false ∨ raw = .string (CodePoints.ofText (s.slice n.range))
  depth : ∀ depth, n.kind = .header depth → 1 ≤ depth
  childless : ∀ value, n.kind = .str value → n.children = []
  start : ∀ first, n.children.head? = some first → n.loc.start = first.loc.start
  stop : ∀ last, n.children.getLast? = some last → n.loc.stop = last.loc.stop

theorem isText_iff {t : Text} {value : Json κ} :
    value.isText t = true ↔ value = .string (CodePoints.ofText t) := by
  cases value <;> simp [Json.isText, Json.text?]

omit [DecidableEq κ] [CodePoints κ] in
theorem kindViolations_eq_nil_iff : n.kindViolations = [] ↔
    (∀ depth, n.kind = .header depth → 1 ≤ depth) ∧
      ∀ value, n.kind = .str value → n.children = [] := by
  unfold kindViolations
  split
  next depth hkind => simp [hkind]
  next value hkind => simp [hkind]
  next hheader hstr =>
    exact iff_of_true rfl ⟨fun depth h => absurd h (hheader depth),
      fun value h => absurd h (hstr value)⟩

theorem spanViolations?_eq_nil_iff : n.spanViolations? s = some [] ↔
    (0 ≤ n.range.start ∧ n.range.start ≤ n.range.stop ∧ n.range.stop ≤ s.text.length) ∧
      s.range? n.loc = some n.range ∧
        ∀ raw, n.raw = some raw →
          raw.truthy = false ∨ raw = .string (CodePoints.ofText (s.slice n.range)) := by
  unfold spanViolations?
  split
  next hordered => simp [hordered]
  next hordered =>
    have hordered := Decidable.not_not.mp hordered
    rw [Option.map_eq_some_iff]
    constructor
    · rintro ⟨range, hrange, hnil⟩
      obtain ⟨hown, hcovers⟩ := List.append_eq_nil_iff.mp hnil
      have hsame : range = n.range := by
        by_contra hne
        rw [if_neg hne] at hown
        cases hown
      refine ⟨hordered, hsame ▸ hrange, fun raw hraw => ?_⟩
      rw [hraw] at hcovers
      simpa [isText_iff, or_iff_not_imp_left] using hcovers
    · rintro ⟨-, hrange, hcovers⟩
      refine ⟨n.range, hrange, List.append_eq_nil_iff.mpr ⟨if_pos rfl, ?_⟩⟩
      cases hraw : n.raw with
      | none => rfl
      | some raw => simpa [isText_iff, or_iff_not_imp_left] using hcovers raw hraw

omit [DecidableEq κ] [CodePoints κ] in
theorem familyViolations_eq_nil_iff : n.familyViolations = [] ↔
    (∀ first, n.children.head? = some first → n.loc.start = first.loc.start) ∧
      (∀ last, n.children.getLast? = some last → n.loc.stop = last.loc.stop) ∧
        n.HoldsChildren := by
  have hholds : siblingViolations n n.range.start n.children = [] ↔ n.HoldsChildren := by
    rw [siblingViolations_eq_nil_iff]
    constructor
    · rintro ⟨hinside, hapart⟩
      exact ⟨fun child hchild => ⟨(hinside child hchild).1, (hinside child hchild).2.1⟩, hapart⟩
    · rintro ⟨hinside, hapart⟩
      exact ⟨fun child hchild => ⟨(hinside child hchild).1, (hinside child hchild).2,
        (hinside child hchild).1⟩, hapart⟩
  cases hchildren : n.children with
  | nil =>
    have hnone : n.HoldsChildren := ⟨by simp [hchildren], by simp [hchildren]⟩
    simp [familyViolations, hchildren, hnone]
  | cons first rest =>
    have hlast := List.getLast?_eq_some_getLast (List.cons_ne_nil first rest)
    rw [hchildren] at hholds
    rw [familyViolations, hchildren, hlast]
    simp only [List.head?_cons, List.append_eq_nil_iff, hholds, Option.some.injEq, forall_eq',
      ite_eq_right_iff, List.cons_ne_nil, imp_false, not_or, ne_eq, Decidable.not_not, and_assoc]

/-- Nothing is found wrong in a tree exactly if its root is right by itself, has its children inside
it one after the other, and nothing is found wrong in their trees. -/
theorem violations?_eq_nil_iff : n.violations? s = some [] ↔
    (n.IsExact s ∧ n.HoldsChildren) ∧ ∀ child ∈ n.children, child.violations? s = some [] := by
  have hexact : n.IsExact s ∧ n.HoldsChildren ↔
      n.kindViolations = [] ∧ n.spanViolations? s = some [] ∧ n.familyViolations = [] := by
    rw [kindViolations_eq_nil_iff, spanViolations?_eq_nil_iff, familyViolations_eq_nil_iff]
    constructor
    · rintro ⟨⟨hordered, hrange, hraw, hdepth, hchildless, hstart, hstop⟩, hholds⟩
      exact ⟨⟨hdepth, hchildless⟩, ⟨hordered, hrange, hraw⟩, hstart, hstop, hholds⟩
    · rintro ⟨⟨hdepth, hchildless⟩, ⟨hordered, hrange, hraw⟩, hstart, hstop, hholds⟩
      exact ⟨⟨hordered, hrange, hraw, hdepth, hchildless, hstart, hstop⟩, hholds⟩
  rw [hexact, violations?_eq_nil_step]
  cases hopen : n.isOpen with
  | true => simp [and_assoc]
  | false =>
    -- The children of a piece of text are not gone through, but it is wrong to have any.
    obtain ⟨value, hkind⟩ : ∃ value, n.kind = .str value := by
      unfold isOpen at hopen
      split at hopen
      · exact ⟨_, ‹_›⟩
      · cases hopen
    constructor
    · rintro ⟨hnil, hspan, -⟩
      have hchildren : n.children = [] := (kindViolations_eq_nil_iff.mp hnil).2 value hkind
      simp [hnil, hspan, hchildren, familyViolations]
    · rintro ⟨⟨hnil, hspan, -⟩, -⟩
      exact ⟨hnil, hspan, fun h => absurd h Bool.false_ne_true⟩

/-- Nothing is found wrong in a tree exactly if this is so of all of its nodes. -/
theorem violations?_eq_nil_iff_forall : n.violations? s = some [] ↔
    ∀ m ∈ n.preorder, m.IsExact s ∧ m.HoldsChildren := by
  induction n using induction with
  | step n ih =>
    rw [violations?_eq_nil_iff]
    constructor
    · rintro ⟨hself, hchildren⟩ m hm
      rcases mem_preorder.mp hm with rfl | ⟨child, hchild, hm⟩
      · exact hself
      · exact (ih child hchild).mp (hchildren child hchild) m hm
    · intro h
      exact ⟨h n n.mem_preorder_self, fun child hchild =>
        (ih child hchild).mpr fun m hm => h m (mem_preorder_of_child hchild hm)⟩

/-! ## Trees -/

/-- A tree is consistent with a text: all nodes are right by themselves, lie inside those above them
and are separate otherwise. -/
structure Consistent (s : Source) (n : Node (Json κ)) : Prop where
  exact : ∀ m ∈ n.preorder, m.IsExact s
  nested : n.Nested
  separate : n.Separate

end Validator

end Node

/-- Both ends of a location are on lines of the text. -/
structure Source.HasLines (s : Source) (l : Location) : Prop where
  start : 1 ≤ l.start.line ∧ l.start.line ≤ s.count
  stop : 1 ≤ l.stop.line ∧ l.stop.line ≤ s.count

theorem Source.HasLines.reaches {s : Source} {l : Location} (h : s.HasLines l) : s.Reaches l :=
  ⟨by have := h.start; omega, by have := h.stop; omega⟩

namespace Node

variable {κ : Type} [DecidableEq κ] [CodePoints κ] {s : Source} {n m : Node (Json κ)}

omit [DecidableEq κ] [CodePoints κ] in
theorem ComesTo.mem_preorder (h : n.ComesTo m) : m ∈ n.preorder := by
  induction h with
  | self n => exact n.mem_preorder_self
  | child _ hchild _ ih => exact mem_preorder_of_child hchild ih

omit [DecidableEq κ] [CodePoints κ] in
/-- A node with short numbers on lines of the text is judged. -/
theorem isJudged_of_hasLines
    (hshort : ∀ k ∈ n.numbers, (Text.Decimal.ofNat k.natAbs).length ≤ Text.Digit.longest)
    (hlines : s.HasLines n.loc) : n.IsJudged s := by
  have hwrites : n.numbers.all s.writes = true := by
    refine List.all_eq_true.mpr fun k hk => ?_
    simp [Source.writes, hshort k hk]
  rw [numbers, List.all_append, List.all_append, Bool.and_eq_true, Bool.and_eq_true] at hwrites
  obtain ⟨⟨hdepth, hloc⟩, hrange⟩ := hwrites
  refine ⟨hrange, fun depth hkind _ => ?_, fun _ => hlines.reaches, fun _ _ => hloc⟩
  simpa [hkind] using hdepth

/-- Nothing is found wrong in a tree exactly if it is consistent with the text: all nodes are right
by themselves, every node lies inside all nodes above it, and of any other two the first in preorder
ends before the second starts. A tree whose locations are on lines of the text is judged, unless it
has numbers that are too long to be told. -/
theorem violations?_exact (s : Source) (n : Node (Json κ)) :
    (n.violations? s = some [] ↔ n.Consistent s) ∧
      (n.HasShortNumbers → (∀ m ∈ n.preorder, s.HasLines m.loc) →
        ∃ found, n.violations? s = some found) := by
  refine ⟨?_, fun hshort hlines => exists_violations?_iff.mpr fun m hm =>
    isJudged_of_hasLines (hshort m hm.mem_preorder) (hlines m hm.mem_preorder)⟩
  rw [violations?_eq_nil_iff_forall]
  constructor
  · intro h
    obtain ⟨hnested, hseparate⟩ := forall_holdsChildren_iff.mp fun m hm => (h m hm).2
    exact ⟨fun m hm => (h m hm).1, hnested, hseparate⟩
  · intro h m hm
    exact ⟨h.exact m hm, forall_holdsChildren_iff.mpr ⟨h.nested, h.separate⟩ m hm⟩

/-- Two pieces of text on two lines are consistent with the text in their order, not in the other. -/
theorem violations?_exact_twoPieces :
    (∃ found, (Node.mk .paragraph ⟨⟨1, 0⟩, ⟨2, 1⟩⟩ ⟨0, 3⟩ none [
        .mk (.str .null) ⟨⟨1, 0⟩, ⟨1, 1⟩⟩ ⟨0, 1⟩ (some (.string ['a'])) [],
        .mk (.str .null) ⟨⟨2, 0⟩, ⟨2, 1⟩⟩ ⟨2, 3⟩ none []]).violations?
      (Source.ofText "a\nb".toList) = some found) ∧
    (Node.mk .paragraph ⟨⟨1, 0⟩, ⟨2, 1⟩⟩ ⟨0, 3⟩ none [
        .mk (.str .null) ⟨⟨1, 0⟩, ⟨1, 1⟩⟩ ⟨0, 1⟩ (some (.string ['a'])) [],
        .mk (.str .null) ⟨⟨2, 0⟩, ⟨2, 1⟩⟩ ⟨2, 3⟩ none []]).Consistent
      (Source.ofText "a\nb".toList) ∧
    ¬(Node.mk .paragraph ⟨⟨2, 0⟩, ⟨1, 1⟩⟩ ⟨2, 1⟩ none [
        .mk (.str .null) ⟨⟨2, 0⟩, ⟨2, 1⟩⟩ ⟨2, 3⟩ none [],
        .mk (.str .null) ⟨⟨1, 0⟩, ⟨1, 1⟩⟩ ⟨0, 1⟩ (some (.string ['a'])) []]).Consistent
      (Source.ofText "a\nb".toList) := by
  refine ⟨(violations?_exact _ _).2 (hasShortNumbers_of_lt 0 (by decide) (by decide)) ?_,
    (violations?_exact _ _).1.mp (by decide), fun h => ?_⟩
  · have hlines (line stop : Int) (hline : 1 ≤ line ∧ line ≤ 2) (hstop : 1 ≤ stop ∧ stop ≤ 2) :
        (Source.ofText "a\nb".toList).HasLines ⟨⟨line, 0⟩, ⟨stop, 1⟩⟩ := ⟨hline, hstop⟩
    simp only [preorder, preorderAll, List.nil_append, List.cons_append, List.forall_mem_cons]
    exact ⟨hlines 1 2 (by decide) (by decide), hlines 1 1 (by decide) (by decide),
      hlines 2 2 (by decide) (by decide), by simp⟩
  · exact absurd ((violations?_exact _ _).1.mpr h) (by decide)

end Node

end Asciidoc
