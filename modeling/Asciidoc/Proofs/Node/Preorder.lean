import Asciidoc.Node.OfElement
import Mathlib.Algebra.Group.Nat.Defs

/-!
# The nodes below a node

What holds of every node of a tree holds of the root and of every node of the trees of its
children; that is all `mem_preorder` says, and nearly all that the laws about whole trees use of the
order. The walk by way of a stack comes to the same nodes in the same order.

The numbers of a tree are those that its nodes are told with. How many digits they have is known
from the power of ten they are below.

`Converted.Every` is a property of every node of what elements became. It is kept by putting
conversions after one another, and by putting a node around them that has it too.
-/

namespace Asciidoc

namespace Text.Decimal

/-- A number has no more digits than the power of ten it is below. -/
theorem length_ofNat_le {n width : Nat} (h : n < 10 ^ (width + 1)) :
    (ofNat n).length ≤ width + 1 := by
  induction width generalizing n with
  | zero =>
    rw [ofNat, dif_pos (by omega)]
    exact Nat.le_refl 1
  | succ width ih =>
    rw [ofNat]
    split
    · rw [List.length_singleton]
      omega
    · have := ih (n := n / 10) (by omega)
      rw [List.length_append, List.length_singleton]
      omega

/-- A number has more digits than the exponents of the powers of ten it reaches. -/
theorem lt_length_ofNat {n width : Nat} (h : 10 ^ width ≤ n) : width < (ofNat n).length := by
  induction width generalizing n with
  | zero =>
    rw [ofNat]
    split <;> simp
  | succ width ih =>
    have hten : 10 ≤ 10 ^ (width + 1) := Nat.le_self_pow (by omega) 10
    rw [ofNat, dif_neg (by omega), List.length_append, List.length_singleton]
    exact Nat.succ_lt_succ (ih (by omega))

end Text.Decimal

namespace Node

variable {α : Type} {m n : Node α}

theorem preorder_eq (n : Node α) : n.preorder = n :: preorderAll n.children := by
  cases n
  rfl

theorem preorderAll_eq_flatMap (ns : List (Node α)) : preorderAll ns = ns.flatMap preorder := by
  induction ns with
  | nil => rfl
  | cons n rest ih => rw [preorderAll, ih, List.flatMap_cons]

theorem preorderAll_append (ms ns : List (Node α)) :
    preorderAll (ms ++ ns) = preorderAll ms ++ preorderAll ns := by
  rw [preorderAll_eq_flatMap, preorderAll_eq_flatMap, preorderAll_eq_flatMap, List.flatMap_append]

/-- Going through trees by way of a stack comes to the nodes in preorder. -/
theorem walkFrom_eq_preorderAll (stack : List (Node α)) : walkFrom stack = preorderAll stack := by
  induction stack using walkFrom.induct with
  | case1 => rw [walkFrom, preorderAll]
  | case2 n stack ih =>
    rw [walkFrom, ih, preorderAll_append, preorderAll, preorder_eq, List.cons_append]

theorem mem_preorderAll {ns : List (Node α)} : m ∈ preorderAll ns ↔ ∃ n ∈ ns, m ∈ n.preorder := by
  induction ns with
  | nil => simp [preorderAll]
  | cons n rest ih => simp [preorderAll, ih]

/-- The nodes of a tree are its root and the nodes of the trees of its children. -/
theorem mem_preorder : m ∈ n.preorder ↔ m = n ∨ ∃ child ∈ n.children, m ∈ child.preorder := by
  rw [preorder_eq, List.mem_cons, mem_preorderAll]

theorem mem_preorder_self (n : Node α) : n ∈ n.preorder := mem_preorder.mpr (.inl rfl)

theorem mem_preorder_of_child {child : Node α} (hchild : child ∈ n.children)
    (hm : m ∈ child.preorder) : m ∈ n.preorder :=
  mem_preorder.mpr (.inr ⟨child, hchild, hm⟩)

theorem sizeOf_lt_of_mem_children {child : Node α} (h : child ∈ n.children) :
    sizeOf child < sizeOf n := by
  cases n with
  | mk kind loc range raw children =>
    have := List.sizeOf_lt_of_mem (show child ∈ children from h)
    simp
    omega

/-- Induction over a tree by the children of its nodes. -/
@[elab_as_elim]
theorem induction {P : Node α → Prop}
    (step : ∀ n, (∀ child ∈ n.children, P child) → P n) (n : Node α) : P n :=
  step n fun child hchild =>
    have := sizeOf_lt_of_mem_children hchild
    induction step child
termination_by sizeOf n

/-! ## Trees with their texts changed -/

section Map

variable {β : Type} (f : α → β) (n : Node α)

@[simp] theorem kind_map : (n.map f).kind = n.kind.map f := by
  cases n
  rfl

@[simp] theorem loc_map : (n.map f).loc = n.loc := by
  cases n
  rfl

@[simp] theorem range_map : (n.map f).range = n.range := by
  cases n
  rfl

@[simp] theorem raw_map : (n.map f).raw = n.raw.map f := by
  cases n
  rfl

theorem mapAll_eq (ns : List (Node α)) : mapAll f ns = ns.map (map f) := by
  induction ns with
  | nil => rfl
  | cons n rest ih => rw [mapAll, ih, List.map_cons]

@[simp] theorem children_map : (n.map f).children = n.children.map (map f) := by
  cases n
  exact mapAll_eq f _

@[simp] theorem Kind.isLeaf_map (kind : Kind α) : (kind.map f).isLeaf = kind.isLeaf := by
  cases kind <;> rfl

theorem Kind.map_map {γ : Type} (g : β → γ) (kind : Kind α) :
    (kind.map f).map g = kind.map (g ∘ f) := by
  cases kind <;> simp [Kind.map]

theorem map_map {γ : Type} (g : β → γ) : (n.map f).map g = n.map (g ∘ f) := by
  induction n using induction with
  | step n ih =>
    cases n with
    | mk kind loc range raw children =>
      have hchildren : (children.map (Node.map f)).map (Node.map g)
          = children.map (Node.map (g ∘ f)) := by
        rw [List.map_map]
        exact List.map_congr_left ih
      simp only [Node.map, mapAll_eq, Kind.map_map, Option.map_map, hchildren]

/-- The nodes of a tree with its texts changed are those of the tree with theirs. -/
theorem preorder_map : (n.map f).preorder = n.preorder.map (Node.map f) := by
  induction n using induction with
  | step n ih =>
    rw [preorder_eq, preorder_eq, children_map, preorderAll_eq_flatMap, preorderAll_eq_flatMap,
      List.flatMap_map, List.map_cons, List.map_flatMap, List.flatMap_def, List.flatMap_def,
      List.map_congr_left ih]

end Map

/-! ## Numbers -/

/-- The numbers a node is told with. -/
def numbers (n : Node α) : List Int :=
  (match n.kind with
    | .header depth => [depth]
    | _ => []) ++ n.loc.numbers ++ n.range.numbers

/-- A tree whose numbers have no more digits than are read and written. -/
def HasShortNumbers (n : Node α) : Prop :=
  ∀ m ∈ n.preorder, ∀ k ∈ m.numbers,
    (Text.Decimal.ofNat k.natAbs).length ≤ Text.Digit.longest

theorem HasShortNumbers.child {child : Node α} (h : n.HasShortNumbers)
    (hchild : child ∈ n.children) : child.HasShortNumbers :=
  fun m hm => h m (mem_preorder_of_child hchild hm)

/-- A tree has short numbers if all of them are below some power of ten. -/
theorem hasShortNumbers_of_lt (width : Nat) (hwidth : width + 1 ≤ Text.Digit.longest)
    (h : ∀ m ∈ n.preorder, ∀ k ∈ m.numbers, k.natAbs < 10 ^ (width + 1)) : n.HasShortNumbers :=
  fun m hm k hk => Nat.le_trans (Text.Decimal.length_ofNat_le (h m hm k hk)) hwidth

end Node

namespace Converted

variable {P : Node Text → Prop} {a b c : Converted}

@[simp] theorem nodes_append (a b : Converted) : (a ++ b).nodes = a.nodes ++ b.nodes := rfl

@[simp] theorem losses_append (a b : Converted) : (a ++ b).losses = a.losses ++ b.losses := rfl

/-- A property of every node of what elements became. -/
def Every (P : Node Text → Prop) (c : Converted) : Prop :=
  ∀ n ∈ c.nodes, ∀ m ∈ n.preorder, P m

theorem every_of_nodes_eq_nil (h : c.nodes = []) : c.Every P := by
  intro n hn
  rw [h] at hn
  cases hn

theorem Every.append (ha : a.Every P) (hb : b.Every P) : (a ++ b).Every P := by
  intro n hn
  rcases List.mem_append.mp hn with hn | hn
  · exact ha n hn
  · exact hb n hn

/-- A node around what has a property, if the node itself has it. -/
theorem Every.around (hc : c.Every P) {n : Node Text} {losses : List Loss}
    (hchildren : n.children = c.nodes) (hn : P n) : Every P ⟨[n], losses⟩ := by
  intro m hm k hk
  obtain rfl := List.mem_singleton.mp hm
  rcases Node.mem_preorder.mp hk with rfl | ⟨child, hchild, hk⟩
  · exact hn
  · exact hc child (hchildren ▸ hchild) k hk

end Converted

namespace Locating

variable {env : Locating} {kind : Node.Kind Text} {loc : Location} {children : List (Node Text)}
  {n : Node Text}

/-- What a node at a location consists of. -/
theorem node?_eq_some (h : env.node? kind loc children = some n) :
    n.kind = kind ∧ n.loc = loc ∧ n.children = children ∧ env.source.range? loc = some n.range ∧
      n.raw = if kind.isSynthetic then none else some (env.source.slice n.range) := by
  obtain ⟨range, hrange, rfl⟩ := Option.map_eq_some_iff.mp h
  exact ⟨rfl, rfl, rfl, hrange, rfl⟩

/-- What a node around children consists of: it starts with the first and ends with the last. -/
theorem around?_eq_some (h : env.around? kind children = some n) :
    ∃ first last, children.head? = some first ∧ children.getLast? = some last ∧
      env.node? kind ⟨first.loc.start, last.loc.stop⟩ children = some n := by
  rw [around?] at h
  split at h
  · exact ⟨_, _, ‹_›, ‹_›, h⟩
  · cases h

/-- The hint of what comes after a sibling: that of the next one, if there is one. -/
def following (next : Hint) (rest : List Element) : Hint :=
  rest.head?.elim next Element.line

/-- A run of siblings: the first, in a window that ends at the hint of the next, and then the
others. -/
theorem convertAll_cons (env : Locating) (w : Window) (next : Hint) (e : Element)
    (rest : List Element) :
    env.convertAll w next (e :: rest) =
      env.convert (w.narrowed e.line (following next rest)) e ++ env.convertAll w next rest := by
  cases rest <;> rfl

/-- A run of entries: the terms of the first, its description, and then the other entries. -/
theorem convertEntries_cons (env : Locating) (w : Window) (entry : Entry Element)
    (rest : List (Entry Element)) :
    env.convertEntries w (entry :: rest) =
      let next : Hint := (rest.flatMap Entry.items).head?.bind Element.line
      env.convertAll w (entry.description.elim next Element.line) entry.terms
        ++ env.convertOption w next entry.description ++ env.convertEntries w rest := by
  obtain ⟨terms, description⟩ := entry
  cases description <;> rfl

end Locating

end Asciidoc
