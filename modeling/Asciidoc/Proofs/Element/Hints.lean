import Asciidoc.Proofs.Element.Parts

/-!
# Hints that are ordered and nested

An element says which line it starts on, and so does everything inside it. Read in source order the
hints of a tree do not go back (`hints`), and the hints of siblings go forward: everything inside a
block is said to start before the next block is. Two things may start on one line, a description
and its term, and two cells of a table (`PartsApart`).

A document always says that it starts on line 1, also the one in a cell, so its own hint is left
out of the order.

`HintedBy` is what reading keeps: the hints are in order at every depth, and all of them are lines
of some kind. Elements of which this holds, on lines of one kind and of a later one, can be put
after one another (`HintedAll.append`) and into an element that starts before them
(`HintedBlock.of_parts`).
-/

namespace Asciidoc

namespace Element

/-! ## Hints in source order -/

/-- The title line of a document, as an element. -/
def titleLine : Element → List Element
  | .document _ (some title) .. => [.header title]
  | _ => []

/-- An element and everything inside it in source order, the title of a document before its
blocks. -/
def preorder (e : Element) : List Element :=
  e :: (e.titleLine ++ e.parts.attach.flatMap fun x => preorder x.1)
termination_by sizeOf e
decreasing_by exact sizeOf_lt_of_mem_parts x.2

/-- Everything inside an element, where its title counts as the first of its parts. -/
theorem preorder_eq (e : Element) :
    e.preorder = e :: (e.titleLine ++ e.parts).flatMap preorder := by
  have hpreorder (e : Element) :
      e.preorder = e :: (e.titleLine ++ e.parts.flatMap preorder) := by
    rw [preorder]
    simp
  have htitle : e.titleLine.flatMap preorder = e.titleLine := by
    unfold titleLine
    split
    · rw [List.flatMap_singleton, hpreorder]
      rfl
    · rfl
  rw [hpreorder, List.flatMap_append, htitle]

/-- Whether an element is a document, the root or the one in a cell. -/
def isDocument : Element → Bool
  | .document .. => true
  | _ => false

/-- The line that an element is said to start on, if it is no document. -/
def ownHints (e : Element) : List Int := if e.isDocument then [] else e.line.toList

/-- The lines that an element and everything inside it are said to start on, in source order,
documents aside. -/
def hints (e : Element) : List Int := e.preorder.flatMap ownHints

theorem hints_eq (e : Element) :
    e.hints = e.ownHints ++ (e.titleLine ++ e.parts).flatMap hints := by
  rw [hints, preorder_eq, List.flatMap_cons, List.flatMap_assoc]
  rfl

theorem ownHints_block {e : Element} {n : Int} (hblock : e.isDocument = false)
    (hline : e.line = some n) : e.ownHints = [n] := by
  rw [ownHints, hblock, if_neg Bool.false_ne_true, hline]
  rfl

theorem mem_hints {root e : Element} {n : Int} (he : e ∈ root.preorder)
    (hblock : e.isDocument = false) (hline : e.line = some n) : n ∈ root.hints := by
  refine List.mem_flatMap.mpr ⟨e, he, ?_⟩
  rw [ownHints_block hblock hline]
  exact List.mem_singleton_self n

/-- An element starts, and everything inside it, before another or, as `r` says, no later. -/
def LeadsTo (r : Int → Int → Prop) (x y : Element) : Prop :=
  ∃ a b, x.line = some a ∧ y.line = some b ∧ r a b ∧ ∀ hint ∈ x.hints, r hint b

/-- The hints of siblings go forward. A description may start on the line of its term, and a cell
on a line of the one before. -/
def PartsApart : Element → Prop
  | .document _ _ blocks _ _ | .sectionBlock _ _ _ blocks | .item _ _ _ blocks
  | .quoteBlock _ blocks | .compound _ _ blocks => blocks.Pairwise (LeadsTo (· < ·))
  | .unorderedList _ _ items | .orderedList _ _ items => items.Pairwise (LeadsTo (· < ·))
  | .descriptionList _ _ entries =>
    entries.Pairwise (fun entry other =>
      ∀ x ∈ entry.items, ∀ y ∈ other.items, x.LeadsTo (· < ·) y) ∧
    ∀ entry ∈ entries, entry.terms.Pairwise (LeadsTo (· < ·)) ∧
      ∀ term ∈ entry.terms, ∀ d ∈ entry.description, term.LeadsTo (· ≤ ·) d
  | .table _ headerRows bodyRows =>
    (headerRows.flatten ++ bodyRows.flatten).Pairwise (LeadsTo (· ≤ ·))
  | .cell .. | .header _ | .paragraph .. | .literal .. | .listing .. | .unsupported .. | .bare _ =>
    True

/-- An element has a hint, a document that it starts on line 1, and the hints of its parts go
forward. -/
structure IsHinted (e : Element) : Prop where
  line : if e.isDocument then e.line = some 1 else e.line.isSome
  apart : e.PartsApart

/-! ## Hints of one kind -/

variable {P Q R : Int → Prop} {r : Int → Int → Prop} {e x y : Element} {es others : List Element}

/-- The hints of an element are of some kind and in order at every depth. -/
structure HintedBy (P : Int → Prop) (e : Element) : Prop where
  kind : ∀ n ∈ e.hints, P n
  sorted : e.hints.Pairwise (· ≤ ·)
  every : ∀ x ∈ e.preorder, x.IsHinted

/-- An element with such hints that is no document. -/
structure HintedBlock (P : Int → Prop) (e : Element) : Prop extends HintedBy P e where
  block : e.isDocument = false

/-- All hints of one element and all of another. -/
def Apart (r : Int → Int → Prop) (x y : Element) : Prop := ∀ a ∈ x.hints, ∀ b ∈ y.hints, r a b

theorem HintedBy.mono (h : e.HintedBy P) (hPQ : ∀ n, P n → Q n) : e.HintedBy Q :=
  ⟨fun n hn => hPQ n (h.kind n hn), h.sorted, h.every⟩

theorem HintedBlock.mono (h : e.HintedBlock P) (hPQ : ∀ n, P n → Q n) : e.HintedBlock Q :=
  ⟨h.toHintedBy.mono hPQ, h.block⟩

/-- An element starts on the least of its hints. -/
theorem HintedBlock.exists_line (h : e.HintedBlock P) :
    ∃ n, e.line = some n ∧ n ∈ e.hints ∧ ∀ m ∈ e.hints, n ≤ m := by
  have hline := (h.every e (preorder_eq e ▸ List.mem_cons_self)).line
  rw [h.block, if_neg Bool.false_ne_true] at hline
  obtain ⟨n, hn⟩ := Option.isSome_iff_exists.mp hline
  have hown := ownHints_block h.block hn
  have hsorted := h.sorted
  rw [hints_eq, hown] at hsorted ⊢
  refine ⟨n, hn, List.mem_cons_self, List.forall_mem_cons.mpr ⟨Int.le_refl n, ?_⟩⟩
  exact (List.pairwise_cons.mp hsorted).1

/-- Elements whose hints are apart lead to one another. -/
theorem Apart.leadsTo (h : Apart r x y) (hx : x.HintedBlock P) (hy : y.HintedBlock Q) :
    x.LeadsTo r y := by
  obtain ⟨a, ha, hmem, -⟩ := hx.exists_line
  obtain ⟨b, hb, hmem', -⟩ := hy.exists_line
  exact ⟨a, b, ha, hb, h a hmem b hmem', fun n hn => h n hn b hmem'⟩

theorem Apart.of_kinds (hx : x.HintedBy P) (hy : y.HintedBy Q) (h : ∀ a b, P a → Q b → r a b) :
    Apart r x y :=
  fun a ha b hb => h a b (hx.kind a ha) (hy.kind b hb)

theorem Apart.le (h : Apart (· < ·) x y) : Apart (· ≤ ·) x y :=
  fun a ha b hb => Int.le_of_lt (h a ha b hb)

/-- The hints of an element are its own and then those of its parts, one after the other. -/
theorem HintedBy.of_own (hown : e.IsHinted) (hkind : ∀ n ∈ e.ownHints, P n)
    (hparts : ∀ x ∈ e.titleLine ++ e.parts, x.HintedBy P)
    (hle : ∀ n ∈ e.ownHints, ∀ x ∈ e.titleLine ++ e.parts, ∀ m ∈ x.hints, n ≤ m)
    (hsorted : (e.titleLine ++ e.parts).Pairwise (Apart (· ≤ ·))) : e.HintedBy P := by
  have hsingle : e.ownHints.Pairwise (· ≤ ·) := by
    unfold ownHints
    split
    · exact .nil
    · cases e.line with
      | none => exact .nil
      | some n => exact List.pairwise_singleton _ n
  refine ⟨?_, ?_, ?_⟩
  · rw [hints_eq]
    refine List.forall_mem_append.mpr ⟨hkind, fun m hm => ?_⟩
    obtain ⟨x, hx, hm⟩ := List.mem_flatMap.mp hm
    exact (hparts x hx).kind m hm
  · rw [hints_eq]
    refine List.pairwise_append.mpr ⟨hsingle, List.pairwise_flatMap.mpr
      ⟨fun x hx => (hparts x hx).sorted, hsorted⟩, fun n hn m hm => ?_⟩
    obtain ⟨x, hx, hm⟩ := List.mem_flatMap.mp hm
    exact hle n hn x hx m hm
  · rw [preorder_eq]
    refine List.forall_mem_cons.mpr ⟨hown, fun x hx => ?_⟩
    obtain ⟨part, hpart, hx⟩ := List.mem_flatMap.mp hx
    exact (hparts part hpart).every x hx

/-- An element that starts no later than its parts. -/
theorem HintedBlock.of_parts {n : Int} (hblock : e.isDocument = false) (hline : e.line = some n)
    (hn : P n) (hparts : ∀ x ∈ e.parts, x.HintedBy P)
    (hle : ∀ x ∈ e.parts, ∀ m ∈ x.hints, n ≤ m) (hsorted : e.parts.Pairwise (Apart (· ≤ ·)))
    (hapart : e.PartsApart) : e.HintedBlock P := by
  have htitle : e.titleLine = [] := by
    cases e <;> first | rfl | cases hblock
  have hown := ownHints_block hblock hline
  have hinside : e.titleLine ++ e.parts = e.parts := by
    rw [htitle, List.nil_append]
  refine ⟨.of_own ⟨?_, hapart⟩ ?_ ?_ ?_ ?_, hblock⟩
  · rw [hblock, if_neg Bool.false_ne_true, hline]
    rfl
  · rw [hown]
    exact List.forall_mem_singleton.mpr hn
  · rwa [hinside]
  · rw [hown, hinside]
    exact List.forall_mem_singleton.mpr hle
  · rwa [hinside]

/-- An element with nothing inside it. -/
theorem HintedBlock.leaf {n : Int} (hblock : e.isDocument = false) (hline : e.line = some n)
    (hn : P n) (hparts : e.parts = []) (hapart : e.PartsApart) : e.HintedBlock P := by
  refine .of_parts hblock hline hn ?_ ?_ ?_ hapart
  · rw [hparts]
    exact nofun
  · rw [hparts]
    exact nofun
  · rw [hparts]
    exact .nil

/-! ## Siblings -/

/-- The hints of siblings are of some kind and go forward. -/
structure HintedAll (P : Int → Prop) (es : List Element) : Prop where
  blocks : ∀ x ∈ es, x.HintedBlock P
  apart : es.Pairwise (Apart (· < ·))

theorem HintedAll.nil : HintedAll P [] := ⟨nofun, .nil⟩

theorem HintedAll.singleton (h : e.HintedBlock P) : HintedAll P [e] :=
  ⟨List.forall_mem_singleton.mpr h, List.pairwise_singleton _ _⟩

theorem HintedAll.mono (h : HintedAll P es) (hPQ : ∀ n, P n → Q n) : HintedAll Q es :=
  ⟨fun x hx => (h.blocks x hx).mono hPQ, h.apart⟩

/-- Siblings of an earlier kind and siblings of a later kind after them. -/
theorem HintedAll.append (h : HintedAll P es) (hothers : HintedAll Q others)
    (hlt : ∀ a b, P a → Q b → a < b) (hP : ∀ n, P n → R n) (hQ : ∀ n, Q n → R n) :
    HintedAll R (es ++ others) := by
  refine ⟨List.forall_mem_append.mpr ⟨fun x hx => ?_, fun x hx => ?_⟩,
    List.pairwise_append.mpr ⟨h.apart, hothers.apart, fun x hx y hy => ?_⟩⟩
  · exact (h.blocks x hx).mono hP
  · exact (hothers.blocks x hx).mono hQ
  · exact .of_kinds (h.blocks x hx).toHintedBy (hothers.blocks y hy).toHintedBy hlt

theorem HintedAll.leadsTo (h : HintedAll P es) : es.Pairwise (LeadsTo (· < ·)) :=
  h.apart.imp_of_mem fun hx hy hxy => hxy.leadsTo (h.blocks _ hx) (h.blocks _ hy)

theorem HintedAll.sorted (h : HintedAll P es) : es.Pairwise (Apart (· ≤ ·)) := h.apart.imp Apart.le

/-- An element around siblings that starts no later than they. -/
theorem HintedAll.around {n : Int} (h : HintedAll Q es) (hblock : e.isDocument = false)
    (hparts : e.parts = es) (hline : e.line = some n) (hn : P n) (hQ : ∀ m, Q m → P m ∧ n ≤ m)
    (hapart : es.Pairwise (LeadsTo (· < ·)) → e.PartsApart) : e.HintedBlock P := by
  subst hparts
  refine .of_parts hblock hline hn (fun x hx => ?_) (fun x hx m hm => ?_) h.sorted
    (hapart h.leadsTo)
  · exact (h.blocks x hx).toHintedBy.mono fun m hm => (hQ m hm).1
  · exact (hQ m ((h.blocks x hx).kind m hm)).2

/-- A document around siblings, behind its title if it has one. -/
theorem HintedAll.document {header : Option Title} {attributes : List (Text × Text)}
    {source : Text} (h : HintedAll P es)
    (htitle : ∀ title ∈ header, ∃ n, title.line = some n ∧ P n ∧
      ∀ x ∈ es, ∀ m ∈ x.hints, n ≤ m) :
    (Element.document (some 1) header es attributes source).HintedBy P := by
  have hblocks : ∀ x ∈ es, x.HintedBy P := fun x hx => (h.blocks x hx).toHintedBy
  refine .of_own ⟨rfl, h.leadsTo⟩ nofun ?_ nofun ?_
  · cases header with
    | none => exact hblocks
    | some title =>
      obtain ⟨n, hline, hn, -⟩ := htitle title rfl
      have hheader : (Element.header title).HintedBlock P := .leaf rfl hline hn rfl trivial
      exact List.forall_mem_cons.mpr ⟨hheader.toHintedBy, hblocks⟩
  · cases header with
    | none => exact h.sorted
    | some title =>
      obtain ⟨n, hline, -, hle⟩ := htitle title rfl
      have hheader : (Element.header title).HintedBlock (· = n) := .leaf rfl hline rfl rfl trivial
      refine List.pairwise_cons.mpr ⟨fun x hx a ha b hb => ?_, h.sorted⟩
      obtain rfl := hheader.kind a ha
      exact hle x hx b hb

/-! ## Entries of description lists -/

/-- The hints of an entry are of some kind, those of its terms go forward, and the description
starts no earlier than they. -/
structure HintedEntry (P : Int → Prop) (entry : Entry Element) : Prop where
  items : ∀ x ∈ entry.items, x.HintedBlock P
  terms : entry.terms.Pairwise (Apart (· < ·))
  description : ∀ term ∈ entry.terms, ∀ d ∈ entry.description, Apart (· ≤ ·) term d

/-- The hints of entries are of some kind and go forward. -/
structure HintedEntries (P : Int → Prop) (entries : List (Entry Element)) : Prop where
  each : ∀ entry ∈ entries, HintedEntry P entry
  apart : entries.Pairwise fun entry other =>
    ∀ x ∈ entry.items, ∀ y ∈ other.items, Apart (· < ·) x y

theorem HintedEntry.mono {entry : Entry Element} (h : HintedEntry P entry)
    (hPQ : ∀ n, P n → Q n) : HintedEntry Q entry :=
  ⟨fun x hx => (h.items x hx).mono hPQ, h.terms, h.description⟩

theorem HintedEntries.singleton {entry : Entry Element} (h : HintedEntry P entry) :
    HintedEntries P [entry] :=
  ⟨List.forall_mem_singleton.mpr h, List.pairwise_singleton _ _⟩

/-- An entry of an earlier kind and entries of a later kind after it. -/
theorem HintedEntries.cons {entry : Entry Element} {entries : List (Entry Element)}
    (h : HintedEntry P entry) (hothers : HintedEntries Q entries)
    (hlt : ∀ a b, P a → Q b → a < b) (hP : ∀ n, P n → R n) (hQ : ∀ n, Q n → R n) :
    HintedEntries R (entry :: entries) := by
  refine ⟨List.forall_mem_cons.mpr ⟨h.mono hP, fun other hother => ?_⟩,
    List.pairwise_cons.mpr ⟨fun other hother x hx y hy => ?_, hothers.apart⟩⟩
  · exact (hothers.each other hother).mono hQ
  · exact .of_kinds (h.items x hx).toHintedBy
      ((hothers.each other hother).items y hy).toHintedBy hlt

/-- The terms and the description of an entry, one after the other. -/
theorem HintedEntry.sorted {entry : Entry Element} (h : HintedEntry P entry) :
    entry.items.Pairwise (Apart (· ≤ ·)) := by
  refine List.pairwise_append.mpr ⟨h.terms.imp Apart.le, ?_, fun term hterm d hd => ?_⟩
  · cases entry.description with
    | none => exact .nil
    | some d => exact List.pairwise_singleton _ _
  · exact h.description term hterm d (Option.mem_toList.mp hd)

/-- A description list starts no later than its entries. -/
theorem HintedEntries.descriptionList {entries : List (Entry Element)} {n : Int} {delimiter : Text}
    (h : HintedEntries P entries) (hn : P n) (hle : ∀ m, P m → n ≤ m) :
    (Element.descriptionList (some n) delimiter entries).HintedBlock P := by
  have hitems : ∀ x ∈ entries.flatMap Entry.items, x.HintedBlock P := by
    intro x hx
    obtain ⟨entry, hentry, hx⟩ := List.mem_flatMap.mp hx
    exact (h.each entry hentry).items x hx
  refine .of_parts rfl rfl hn (fun x hx => (hitems x hx).toHintedBy)
    (fun x hx m hm => hle m ((hitems x hx).kind m hm)) ?_ ⟨?_, fun entry hentry => ⟨?_, ?_⟩⟩
  · refine List.pairwise_flatMap.mpr ⟨fun entry hentry => (h.each entry hentry).sorted, ?_⟩
    exact h.apart.imp fun hapart x hx y hy => (hapart x hx y hy).le
  · refine h.apart.imp_of_mem fun {entry other} hentry hother hapart x hx y hy => ?_
    exact (hapart x hx y hy).leadsTo ((h.each entry hentry).items x hx)
      ((h.each other hother).items y hy)
  · have hentry := h.each entry hentry
    have hterm {term : Element} (hmem : term ∈ entry.terms) : term.HintedBlock P :=
      hentry.items term (Entry.mem_items.mpr (.inl hmem))
    exact hentry.terms.imp_of_mem fun hx hy hapart => hapart.leadsTo (hterm hx) (hterm hy)
  · intro term hterm d hd
    have hentry := h.each entry hentry
    exact (hentry.description term hterm d hd).leadsTo
      (hentry.items term (Entry.mem_items.mpr (.inl hterm)))
      (hentry.items d (Entry.mem_items.mpr (.inr hd)))

/-! ## Cells of tables -/

/-- A table starts no later than its cells, of which each starts no later than the next. -/
theorem HintedBlock.table {n : Int} {headerRows bodyRows : List (List Element)} (hn : P n)
    (hcells : ∀ x ∈ headerRows.flatten ++ bodyRows.flatten, x.HintedBlock P)
    (hle : ∀ m, P m → n ≤ m)
    (hsorted : (headerRows.flatten ++ bodyRows.flatten).Pairwise (Apart (· ≤ ·))) :
    (Element.table (some n) headerRows bodyRows).HintedBlock P :=
  .of_parts rfl rfl hn (fun x hx => (hcells x hx).toHintedBy)
    (fun x hx m hm => hle m ((hcells x hx).kind m hm)) hsorted
    (hsorted.imp_of_mem fun hx hy hapart => hapart.leadsTo (hcells _ hx) (hcells _ hy))

end Element

end Asciidoc
