import Asciidoc.Node.Traversal
import Asciidoc.Proofs.Node.Consistent

/-!
# The walk, the traversal and the visitor

A tree can be gone through in three ways: by the walk, by a traversal round by round, and by a
visitor that is sent from node to node. All come to the same nodes in the same order, and that is
preorder, in which every place of the tree comes once (`walk_traverses`).

What a traversal has still to reach is the preorder of the trees on its stack, from the top down.
A round takes the first node off that list and leaves the rest as it is: the children it puts on
the stack are the ones whose preorder follows. So the number of nodes still to come is both what
ends a traversal and how many rounds it goes on.
-/

namespace Asciidoc

namespace Node

/-! ## Rounds of a traversal -/

namespace Traversal

variable {α : Type} {t t' : Traversal α}

/-- The nodes that a traversal has still to reach. -/
def pending (t : Traversal α) : List (Node α) := preorderAll t.stack.reverse

theorem pending_start (n : Node α) : (start n).pending = n.preorder := by
  rw [pending, start, List.reverse_singleton, preorderAll_eq_flatMap, List.flatMap_singleton]

theorem pending_eq_nil_iff : t.pending = [] ↔ t.stack = [] := by
  constructor
  · intro h
    cases hstack : t.stack.reverse with
    | nil => exact List.reverse_eq_nil_iff.mp hstack
    | cons n rest =>
      rw [pending, hstack, preorderAll, preorder_eq] at h
      cases h
  · intro h
    rw [pending, h]
    rfl

theorem step?_eq_none_iff : t.step? = none ↔ t.pending = [] := by
  rw [step?, Option.map_eq_none_iff, List.getLast?_eq_none_iff, pending_eq_nil_iff]

/-- A round reaches the first of the nodes still to come. -/
theorem step?_eq_some (h : t.step? = some t') :
    ∃ n, t.pending = n :: t'.pending ∧ t'.reached = t.reached ++ [n] := by
  obtain ⟨n, hn, rfl⟩ := Option.map_eq_some_iff.mp h
  obtain ⟨below, hstack⟩ := List.getLast?_eq_some_iff.mp hn
  refine ⟨n, ?_, rfl⟩
  -- The children are on the stack in reverse, so that turning the stack over sets them right.
  rw [pending, pending, hstack, List.dropLast_concat, List.reverse_append, List.reverse_append,
    List.reverse_reverse, List.reverse_singleton, List.singleton_append, preorderAll,
    preorderAll_append, preorder_eq, List.cons_append]

/-- After a number of rounds as many nodes are reached, and the others are still to come. -/
theorem exists_rounds? {k : Nat} (h : k ≤ t.pending.length) :
    ∃ t', t.rounds? k = some t' ∧ t'.pending = t.pending.drop k ∧
      t'.reached = t.reached ++ t.pending.take k := by
  induction k generalizing t with
  | zero => exact ⟨t, rfl, by rw [List.drop_zero], by rw [List.take_zero, List.append_nil]⟩
  | succ k ih =>
    have hne : t.step? ≠ none := by
      rw [Ne, step?_eq_none_iff]
      rintro hnil
      rw [hnil] at h
      exact Nat.not_succ_le_zero k h
    obtain ⟨next, hnext⟩ := Option.ne_none_iff_exists'.mp hne
    obtain ⟨n, hpending, hreached⟩ := step?_eq_some hnext
    rw [hpending, List.length_cons, Nat.succ_le_succ_iff] at h
    obtain ⟨t', hrounds, hleft, hdone⟩ := ih h
    refine ⟨t', ?_, ?_, ?_⟩
    · rw [rounds?, hnext, Option.bind_some, hrounds]
    · rw [hleft, hpending, List.drop_succ_cons]
    · rw [hdone, hreached, hpending, List.take_succ_cons, List.append_assoc, List.singleton_append]

/-- There are no more rounds than nodes to reach. -/
theorem rounds?_eq_none {k : Nat} (h : t.pending.length < k) : t.rounds? k = none := by
  induction k generalizing t with
  | zero => exact absurd h (Nat.not_lt_zero _)
  | succ k ih =>
    rw [rounds?, Option.bind_eq_none_iff]
    intro next hnext
    obtain ⟨n, hpending, -⟩ := step?_eq_some hnext
    rw [hpending, List.length_cons, Nat.succ_lt_succ_iff] at h
    exact ih h

end Traversal

section Ways

variable {α : Type} (n : Node α)

theorem walk_eq_preorder : n.walk = n.preorder := by
  rw [walk, walkFrom_eq_preorderAll, preorderAll_eq_flatMap, List.flatMap_singleton]

theorem length_preorder : n.preorder.length = n.size := by
  induction n using induction with
  | step n ih =>
    have hall (ns : List (Node α)) (h : ∀ m ∈ ns, m.preorder.length = m.size) :
        (preorderAll ns).length = sizeAll ns := by
      induction ns with
      | nil => rfl
      | cons m ns ihns =>
        obtain ⟨hm, hns⟩ := List.forall_mem_cons.mp h
        rw [preorderAll, List.length_append, hm, ihns hns, sizeAll]
    rw [preorder_eq, List.length_cons, hall _ ih, size_eq]

/-- After a number of rounds a traversal has reached as many nodes, and the others are below those
on its stack. -/
theorem Traversal.exists_rounds?_start {k : Nat} (h : k ≤ n.size) :
    ∃ stack, (start n).rounds? k = some ⟨stack, n.preorder.take k⟩ ∧
      preorderAll stack.reverse = n.preorder.drop k := by
  rw [← length_preorder, ← pending_start] at h
  obtain ⟨⟨stack, reached⟩, hrounds, hleft, hreached⟩ := exists_rounds? h
  rw [pending_start] at hleft hreached
  obtain rfl : reached = n.preorder.take k := hreached
  exact ⟨stack, hrounds, hleft⟩

/-- The paths of a tree are those that lead somewhere. -/
theorem mem_paths_iff {path : List Nat} : path ∈ n.paths ↔ (n.at? path).isSome := by
  induction n using induction generalizing path with
  | step n ih =>
    have hfrom (index : Nat) (ns : List (Node α)) (next : Nat) (rest : List Nat) :
        next :: rest ∈ pathsFrom index ns ↔
          index ≤ next ∧ ∃ m, ns[next - index]? = some m ∧ rest ∈ m.paths := by
      induction ns generalizing index with
      | nil => simp [pathsFrom]
      | cons m ns ihns =>
        rw [pathsFrom, List.mem_append, ihns, List.mem_map]
        rcases Nat.lt_trichotomy index next with hlt | rfl | hlt
        · have hsub : next - index = (next - (index + 1)) + 1 := by omega
          rw [hsub, List.getElem?_cons_succ]
          simp [Nat.le_of_lt hlt, Nat.succ_le_iff.mpr hlt, Nat.ne_of_lt hlt]
        · have hafter : ¬index + 1 ≤ index := by omega
          simp [hafter]
        · simp [Nat.not_le.mpr hlt, Nat.ne_of_gt hlt, Nat.not_le.mpr (Nat.lt_succ_of_lt hlt)]
    rw [paths_eq, List.mem_cons]
    cases path with
    | nil => simp [at?]
    | cons next rest =>
      rw [hfrom, at?, Nat.sub_zero]
      cases hchild : n.children[next]? with
      | none => simp
      | some m => simp [ih m (List.mem_of_getElem? hchild)]

end Ways

/-! ## Visitors -/

section Visitors

variable {α : Type} {m : Type → Type} [Monad m] [LawfulMonad m] (v : Visitor α m)

omit [LawfulMonad m] in
theorem accept_eq (n : Node α) :
    n.accept v = v.visit n >>= fun _ => acceptAll v n.children := by
  cases n
  rfl

/-- A visitor comes to the nodes of a tree in preorder. -/
theorem accept_eq_forM (n : Node α) : n.accept v = forM n.preorder v.visit := by
  induction n using induction with
  | step n ih =>
    have hall (ns : List (Node α)) (h : ∀ k ∈ ns, k.accept v = forM k.preorder v.visit) :
        acceptAll v ns = forM (preorderAll ns) v.visit := by
      induction ns with
      | nil => rw [acceptAll, preorderAll, List.forM_nil]
      | cons k ns ihns =>
        obtain ⟨hk, hns⟩ := List.forall_mem_cons.mp h
        rw [acceptAll, preorderAll, List.forM_append, hk, ihns hns]
    rw [accept_eq, preorder_eq, List.forM_cons, hall _ ih]

end Visitors

/-! ## What is found -/

section Found

variable {α β : Type}

/-- The tag of a node is that of its class. -/
theorem name_eq (n : Node α) : n.name = (Class.ofKind n.kind).name := by
  rw [name]
  cases n.kind <;> rfl

/-- No two classes have the same tag. -/
theorem Class.name_inj {c d : Class} : c.name = d.name ↔ c = d := by
  cases c <;> cases d <;> decide

/-- The nodes of a class of their own are those with its tag. -/
theorem Class.holds_eq_beq_name {c : Class} (hc : c ≠ .node) (n : Node α) :
    c.holds n = (n.name.toList == c.name.toList) := by
  rw [holds, name_eq, Bool.eq_iff_iff, Bool.or_eq_true, decide_eq_true_eq, decide_eq_true_eq,
    beq_iff_eq, or_iff_right hc]
  constructor
  · rintro rfl
    rfl
  · intro h
    exact (name_inj.mp (String.toList_inj.mp h)).symm

theorem values_eq (n : Node α) : n.values = n.preorder.filterMap piece? := by
  rw [values, walk_eq_preorder]
  rfl

theorem piece?_map (f : α → β) (n : Node α) : (n.map f).piece? = n.piece?.map f := by
  rw [piece?, piece?, kind_map]
  cases n.kind <;> rfl

theorem values_map (f : α → β) (n : Node α) : (n.map f).values = n.values.map f := by
  rw [values_eq, values_eq, preorder_map, List.filterMap_map, List.map_filterMap]
  exact congrArg (List.filterMap · _) (funext fun k => piece?_map f k)

end Found

/-- Going through a tree by way of a stack takes as many rounds as the tree has nodes, each of which
reaches the next node of the walk. The walk is the tree in preorder and comes to every place of the
tree once; it is the way that every visitor goes. So what is found by a tag or by a class are the
nodes in preorder that have it, and the text of a tree is that of its pieces of text in preorder,
joined; there is none if the value of one of them is no text. -/
theorem walk_traverses {α : Type} (n : Node α) :
    ((∀ k ≤ n.size, ∃ stack, (Traversal.start n).rounds? k = some ⟨stack, n.walk.take k⟩) ∧
      (Traversal.start n).rounds? n.size = some ⟨[], n.walk⟩ ∧
      (Traversal.start n).rounds? (n.size + 1) = none) ∧
    n.walk = n.preorder ∧
    (n.walk.map some = n.paths.map n.at? ∧ n.paths.Nodup ∧
      ∀ path, path ∈ n.paths ↔ (n.at? path).isSome) ∧
    (∀ (m : Type → Type) [Monad m] [LawfulMonad m] (v : Visitor α m),
      n.accept v = forM n.walk v.visit) ∧
    ((∀ tag, n.findAll tag = n.preorder.filter fun k => k.name.toList == tag) ∧
      (∀ c, n.findInstances c = n.preorder.filter c.holds) ∧
      ∀ c ≠ .node, n.findInstances c = n.findAll c.name.toList) ∧
    ∀ (value : α → Json) (joiner : Text), (n.map value).text? joiner =
      ((n.preorder.filterMap piece?).mapM fun a => (value a).text?).map (Text.join joiner) := by
  have hwalk := n.walk_eq_preorder
  refine ⟨⟨fun k hk => ?_, ?_, ?_⟩, hwalk, ⟨?_, ?_, fun path => n.mem_paths_iff⟩, ?_,
    ⟨fun tag => ?_, fun c => ?_, fun c hc => ?_⟩, fun value joiner => ?_⟩
  · obtain ⟨stack, hrounds, -⟩ := Traversal.exists_rounds?_start n hk
    exact ⟨stack, by rw [hrounds, hwalk]⟩
  · -- With no node left to come the stack is empty, since every tree has a root.
    obtain ⟨stack, hrounds, hleft⟩ := Traversal.exists_rounds?_start n (Nat.le_refl _)
    rw [← length_preorder, List.drop_length] at hleft
    obtain rfl : stack = [] := (Traversal.pending_eq_nil_iff (t := ⟨stack, []⟩)).mp hleft
    rw [hrounds, hwalk, ← length_preorder, List.take_length]
  · refine Traversal.rounds?_eq_none ?_
    rw [Traversal.pending_start, length_preorder]
    exact Nat.lt_succ_self _
  · rw [hwalk, map_at?_paths]
  · refine n.pairwise_paths.imp fun hlt heq => ?_
    exact List.lt_irrefl _ (heq ▸ hlt)
  · intro m _ _ v
    rw [hwalk, accept_eq_forM]
  · rw [findAll, hwalk]
  · rw [findInstances, hwalk]
  · rw [findInstances, findAll]
    exact List.filter_congr fun k _ => Class.holds_eq_beq_name hc k
  · rw [text?, values_map, values_eq, List.mapM_map]
    rfl

/-- A document of two paragraphs: three rounds of a traversal, a visitor that keeps the tags, the
pieces of text by their class, and the text. -/
theorem walk_traverses_twoParagraphs :
    let here : Location := ⟨.origin, .origin⟩
    let piece (t : Text) : Node Text := .mk (.str t) here ⟨0, 0⟩ none []
    let paragraph (t : Text) : Node Text := .mk .paragraph here ⟨0, 0⟩ none [piece t]
    let tree : Node Text := .mk .document here ⟨0, 0⟩ none [paragraph ['a'], paragraph ['b']]
    let keep (n : Node Text) : StateM (List String) Unit := modify (· ++ [n.name])
    let keeper : Visitor Text (StateM (List String)) :=
      ⟨keep, keep, keep, keep, keep, keep, keep, keep, keep, keep, keep⟩
    3 ≤ tree.size ∧
      (∃ stack, (Traversal.start tree).rounds? 3
        = some ⟨stack, [tree, paragraph ['a'], piece ['a']]⟩) ∧
      ((tree.accept keeper).run []).2 = ["Document", "Paragraph", "Str", "Paragraph", "Str"] ∧
      Class.str ≠ .node ∧ tree.findInstances .str = [piece ['a'], piece ['b']] ∧
      tree.findInstances .str = tree.findAll "Str".toList ∧
      (tree.map Json.string).text? [','] = some ['a', ',', 'b'] := by
  intro here piece paragraph tree keep keeper
  obtain ⟨⟨hrounds, -, -⟩, hwalk, -, hvisited, ⟨-, hinstances, hclass⟩, htext⟩ :=
    walk_traverses tree
  have hthree : 3 ≤ tree.size := by decide
  obtain ⟨stack, hstack⟩ := hrounds 3 hthree
  refine ⟨hthree, ⟨stack, ?_⟩, ?_, by decide, ?_, hclass .str (by decide), ?_⟩
  · rw [hstack, hwalk]
    rfl
  · rw [hvisited, hwalk]
    rfl
  · rw [hinstances]
    rfl
  · rw [htext]
    rfl

end Node

end Asciidoc
