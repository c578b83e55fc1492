import Asciidoc.Node.Check
import Asciidoc.Proofs.Node.Preorder
import Asciidoc.Proofs.Span.Offsets

/-!
# When a tree is judged

Two things keep the validator from judging a tree: a location on a line that is not in the table of
line starts, and a number that is too long to be told. Neither matters unless it comes to it. A
location is not looked up for a node whose range is wrong by itself; the numbers of a location are
told only if it is not that of its range, a depth only if it is below one, and nothing at all is
asked of the nodes below a piece of text.

`Node.IsJudged` puts this together for one node. A tree is judged exactly if this holds of all nodes
that the validator comes to (`exists_violations?_iff`), whatever is wrong with them.
-/

namespace Asciidoc

/-- Two steps succeed if the first does and then the second. -/
theorem bind_eq_ok {ε α β : Type} {x : Except ε α} {f : α → Except ε β} {b : β} :
    x >>= f = .ok b ↔ ∃ a, x = .ok a ∧ f a = .ok b := by
  cases x <;> simp [bind, Except.bind]

/-! ## Offsets of positions that may be anywhere -/

theorem fromEitherEnd?_eq_some_iff {α : Type} {xs : List α} {index : Int} {x : α} :
    fromEitherEnd? xs index = some x ↔
      ∃ i : Nat, xs[i]? = some x ∧ (index = i ∨ index = (i : Int) - xs.length) := by
  unfold fromEitherEnd?
  constructor
  · intro h
    split at h
    · exact ⟨index.toNat, h, by omega⟩
    · split at h
      · exact ⟨_, h, by omega⟩
      · cases h
  · rintro ⟨i, hi, rfl | rfl⟩
    · rw [if_pos (by omega), Int.toNat_natCast]
      exact hi
    · have hlt := (List.getElem?_eq_some_iff.mp hi).1
      have hback : xs.length + ((i : Int) - xs.length) = i := by omega
      rw [if_neg (by omega), if_pos (by omega), hback]
      exact hi

namespace Source

variable {s : Source} {p : Position} {offset : Int}

/-- The offset of a position counts from where a line starts, or from what comes after the text.
The line is given by its number, or by what is left to the number after the last. -/
theorem offset?_eq_some_iff : s.offset? p = some offset ↔
    ∃ index : Nat, index ≤ s.count ∧ (p.line = index + 1 ∨ p.line = (index : Int) - s.count) ∧
      offset = lineStart s.lines index + p.column := by
  have hlength := s.length_starts
  rw [offset?, Option.map_eq_some_iff]
  constructor
  · rintro ⟨_, hstart, rfl⟩
    obtain ⟨start, hfound, ⟨⟩⟩ := Option.bind_eq_some_iff.mp hstart
    obtain ⟨index, hindex, hline⟩ := fromEitherEnd?_eq_some_iff.mp hfound
    have hle : index ≤ s.count := by
      have := (List.getElem?_eq_some_iff.mp hindex).1
      omega
    rw [getElem?_starts hle, Option.some.injEq] at hindex
    subst hindex
    exact ⟨index, hle, by omega, rfl⟩
  · rintro ⟨index, hle, hline, rfl⟩
    have hstart : fromEitherEnd? s.starts (p.line - 1) = some (lineStart s.lines index) :=
      fromEitherEnd?_eq_some_iff.mpr ⟨index, getElem?_starts hle, by omega⟩
    rw [hstart]
    exact ⟨_, rfl, rfl⟩

/-- Both ends of a location have an offset: their lines are at most one past the last line, and at
most as far from it on the other side of the first. -/
structure Reaches (s : Source) (l : Location) : Prop where
  start : -(s.count : Int) ≤ l.start.line ∧ l.start.line ≤ s.count + 1
  stop : -(s.count : Int) ≤ l.stop.line ∧ l.stop.line ≤ s.count + 1

theorem exists_offset?_iff :
    (∃ offset, s.offset? p = some offset) ↔ -(s.count : Int) ≤ p.line ∧ p.line ≤ s.count + 1 := by
  constructor
  · rintro ⟨offset, h⟩
    obtain ⟨index, hle, hline, -⟩ := offset?_eq_some_iff.mp h
    omega
  · intro hline
    refine ⟨_, offset?_eq_some_iff.mpr
      ⟨if 1 ≤ p.line then (p.line - 1).toNat else (p.line + s.count).toNat, ?_, ?_, rfl⟩⟩ <;>
    split <;> omega

theorem exists_range?_iff {l : Location} : (∃ range, s.range? l = some range) ↔ s.Reaches l := by
  constructor
  · rintro ⟨range, h⟩
    obtain ⟨hstart, hstop⟩ := range?_eq_some h
    exact ⟨exists_offset?_iff.mp ⟨_, hstart⟩, exists_offset?_iff.mp ⟨_, hstop⟩⟩
  · intro h
    obtain ⟨start, hstart⟩ := exists_offset?_iff.mpr h.start
    obtain ⟨stop, hstop⟩ := exists_offset?_iff.mpr h.stop
    exact ⟨⟨start, stop⟩, by rw [range?, hstart, hstop]; rfl⟩

end Source

namespace Node

variable {s : Source}

/-! ## The steps of the validator -/

section Steps

variable {κ : Type} [DecidableEq κ] [CodePoints κ] {n : Node (Json κ)} {found all : List Violation}

omit [DecidableEq κ] [CodePoints κ] in
/-- What is told is what is wrong, if all of it can be. -/
theorem told_eq_ok_iff :
    told s found = .ok all ↔ (∀ v ∈ found, v.isTold s = true) ∧ found = all := by
  rw [told, ← List.all_eq_true]
  split <;> simp_all

theorem violations?_eq_some_iff : n.violations? s = some found ↔ n.violations s = .ok found := by
  rw [violations?]
  cases n.violations s <;> simp [Except.toOption]

theorem toldSpan_eq_ok_iff : n.toldSpan s = .ok found ↔
    n.spanViolations? s = some found ∧ ∀ v ∈ found, v.isTold s = true := by
  rw [toldSpan]
  cases n.spanViolations? s with
  | none => simp
  | some own =>
    rw [told_eq_ok_iff, Option.some_inj]
    constructor
    · rintro ⟨htold, rfl⟩
      exact ⟨rfl, htold⟩
    · rintro ⟨rfl, htold⟩
      exact ⟨htold, rfl⟩

theorem violations_eq (n : Node (Json κ)) :
    n.violations s = (do
      let fields ← told s n.kindViolations
      let own ← n.toldSpan s
      if n.isOpen then
        let family ← told s n.familyViolations
        let below ← violationsAll s n.children
        return fields ++ own ++ family ++ below
      else return fields ++ own) := by
  cases n
  rfl

/-- What is found in a tree: what is wrong with its root and, unless that is a piece of text, with
its children and in their trees. -/
theorem violations_eq_ok_iff : n.violations s = .ok found ↔
    (∀ v ∈ n.kindViolations, v.isTold s = true) ∧ ∃ own, n.toldSpan s = .ok own ∧
      if n.isOpen then (∀ v ∈ n.familyViolations, v.isTold s = true) ∧
        ∃ below, violationsAll s n.children = .ok below ∧
          n.kindViolations ++ own ++ n.familyViolations ++ below = found
      else n.kindViolations ++ own = found := by
  rw [violations_eq]
  simp only [bind_eq_ok, told_eq_ok_iff]
  cases n.isOpen <;> simp [bind_eq_ok, told_eq_ok_iff, pure, Except.pure]

theorem violationsAll_cons_eq_ok_iff {ns : List (Node (Json κ))} :
    violationsAll s (n :: ns) = .ok found ↔ ∃ first others, n.violations s = .ok first ∧
      violationsAll s ns = .ok others ∧ first ++ others = found := by
  simp [violationsAll, bind_eq_ok, pure, Except.pure]

theorem violationsAll_eq_nil_iff {ns : List (Node (Json κ))} :
    violationsAll s ns = .ok [] ↔ ∀ n ∈ ns, n.violations? s = some [] := by
  induction ns with
  | nil => simp [violationsAll]
  | cons n rest ih =>
    rw [List.forall_mem_cons, ← ih, violations?_eq_some_iff, violationsAll_cons_eq_ok_iff]
    simp

/-- Nothing is found wrong in a tree exactly if nothing is wrong with its root and, unless that is a
piece of text, with its children and in their trees. -/
theorem violations?_eq_nil_step : n.violations? s = some [] ↔
    n.kindViolations = [] ∧ n.spanViolations? s = some [] ∧
      (n.isOpen = true → n.familyViolations = [] ∧
        ∀ child ∈ n.children, child.violations? s = some []) := by
  rw [violations?_eq_some_iff, violations_eq_ok_iff, ← violationsAll_eq_nil_iff]
  simp only [toldSpan_eq_ok_iff]
  cases n.isOpen with
  | true =>
    simp only [if_true, List.append_eq_nil_iff, forall_const]
    constructor
    · rintro ⟨-, own, ⟨hspan, -⟩, -, below, hbelow, ⟨⟨hkind, rfl⟩, hfamily⟩, rfl⟩
      exact ⟨hkind, hspan, hfamily, hbelow⟩
    · rintro ⟨hkind, hspan, hfamily, hbelow⟩
      simp [hkind, hspan, hfamily, hbelow]
  | false =>
    simp only [Bool.false_eq_true, if_false, List.append_eq_nil_iff, false_imp_iff, and_true]
    constructor
    · rintro ⟨-, own, ⟨hspan, -⟩, hkind, rfl⟩
      exact ⟨hkind, hspan⟩
    · rintro ⟨hkind, hspan⟩
      simp [hkind, hspan]

end Steps

/-! ## Nodes that are judged -/

/-- The nodes that the validator comes to: it does not go on below a piece of text. -/
inductive ComesTo {κ : Type} : Node (Json κ) → Node (Json κ) → Prop where
  /-- It starts at the root. -/
  | self (n : Node (Json κ)) : ComesTo n n
  /-- It goes on to the children of other nodes. -/
  | child {n child m : Node (Json κ)} (hopen : n.isOpen = true) (hchild : child ∈ n.children)
      (h : ComesTo child m) : ComesTo n m

section Judged

variable {α : Type} {n : Node α}

/-- The range of a node is ordered and in the text. -/
def InText (s : Source) (n : Node α) : Prop :=
  0 ≤ n.range.start ∧ n.range.start ≤ n.range.stop ∧ n.range.stop ≤ s.text.length

/-- What is asked of a node for the validator to go on, whatever is wrong with it. -/
structure IsJudged (s : Source) (n : Node α) : Prop where
  /-- Its range can be written. -/
  range : n.range.numbers.all s.writes
  /-- Its depth can be written, if it is below one. -/
  depth : ∀ depth, n.kind = .header depth → depth < 1 → s.writes depth
  /-- Its location has a range, unless that of the node is wrong by itself. -/
  reaches : n.InText s → s.Reaches n.loc
  /-- Its location can be written, if it has another range. -/
  loc : n.InText s → s.range? n.loc ≠ some n.range → n.loc.numbers.all s.writes

/-- The numbers of a range in the text can be written. -/
theorem InText.writes (h : n.InText s) : n.range.numbers.all s.writes = true := by
  obtain ⟨hstart, horder, hstop⟩ := h
  have hlow : 0 ≤ n.range.stop := by omega
  have hhigh : n.range.start ≤ s.text.length := by omega
  simp [Range.numbers, Source.writes, hstart, hlow, hhigh, hstop]

end Judged

section Told

variable {κ : Type} [DecidableEq κ] [CodePoints κ] {n : Node (Json κ)}

omit [DecidableEq κ] [CodePoints κ] in
/-- What is wrong with the fields of a node can be told if its range can, and a depth below one. -/
theorem forall_kindViolations_isTold_iff (hrange : n.range.numbers.all s.writes = true) :
    (∀ v ∈ n.kindViolations, v.isTold s = true) ↔
      ∀ depth, n.kind = .header depth → depth < 1 → s.writes depth = true := by
  unfold kindViolations
  split
  next depth hkind =>
    by_cases hdepth : depth < 1 <;>
      simp [hkind, hdepth, Violation.isTold, Violation.numbers, hrange, -List.all_eq_true]
  next value hkind =>
    by_cases hchildren : n.children = [] <;>
      simp [hkind, hchildren, Violation.isTold, Violation.numbers, hrange, -List.all_eq_true]
  next hheader _ =>
    exact iff_of_true nofun fun depth hdepth => absurd hdepth (hheader depth)

theorem isTold_otherRange (tag : String) (range : Range) (loc : Location) :
    (Violation.otherRange tag range loc).isTold s
      = (range.numbers.all s.writes && loc.numbers.all s.writes) :=
  List.all_append

/-- Where a node stands is judged and told under what is asked of the node. -/
theorem exists_toldSpan_iff : (∃ own, n.toldSpan s = .ok own) ↔
    n.range.numbers.all s.writes = true ∧ (n.InText s → s.Reaches n.loc) ∧
      (n.InText s → s.range? n.loc ≠ some n.range → n.loc.numbers.all s.writes = true) := by
  simp only [toldSpan_eq_ok_iff, ← Source.exists_range?_iff]
  unfold spanViolations?
  split
  next hrange =>
    have hout : ¬n.InText s := hrange
    simp [hout, Violation.isTold, Violation.numbers, -List.all_eq_true]
  next hrange =>
    have hin : n.InText s := Classical.not_not.mp hrange
    have hwrites := hin.writes
    simp only [hin, hwrites, forall_const, true_and]
    cases s.range? n.loc with
    | none => simp
    | some range =>
      simp only [Option.map_some, Option.some.injEq, exists_eq_left', List.forall_mem_append,
        exists_eq', true_and]
      constructor
      · rintro ⟨hother, -⟩ hne
        rw [if_neg (mt (congrArg some) hne)] at hother
        have htold := hother _ (List.mem_singleton_self _)
        rw [isTold_otherRange, Bool.and_eq_true] at htold
        exact htold.2
      · intro hloc
        refine ⟨?_, ?_⟩
        · split
          · nofun
          next hne =>
            refine List.forall_mem_singleton.mpr ?_
            rw [isTold_otherRange, hwrites, Bool.true_and]
            exact hloc (mt Option.some.inj hne)
        · split
          · nofun
          · split
            · nofun
            · exact List.forall_mem_singleton.mpr hwrites

omit [DecidableEq κ] [CodePoints κ] in
/-- What is wrong with the places of children can be told if the ranges of the children can. -/
theorem forall_siblingViolations_isTold {parent : Node (Json κ)} {reached : Int}
    {children : List (Node (Json κ))}
    (h : ∀ child ∈ children, child.range.numbers.all s.writes = true) :
    ∀ v ∈ siblingViolations parent reached children, v.isTold s = true := by
  induction children generalizing reached with
  | nil => nofun
  | cons child rest ih =>
    obtain ⟨hchild, hrest⟩ := List.forall_mem_cons.mp h
    rw [siblingViolations]
    simp only [List.forall_mem_append]
    refine ⟨⟨?_, ?_⟩, ih hrest⟩ <;>
    · split
      · exact List.forall_mem_singleton.mpr hchild
      · nofun

omit [DecidableEq κ] [CodePoints κ] in
/-- What is wrong between a node and its children can be told if all their ranges can. -/
theorem forall_familyViolations_isTold (hrange : n.range.numbers.all s.writes = true)
    (h : ∀ child ∈ n.children, child.range.numbers.all s.writes = true) :
    ∀ v ∈ n.familyViolations, v.isTold s = true := by
  unfold familyViolations
  split
  · simp only [List.forall_mem_append]
    refine ⟨?_, forall_siblingViolations_isTold h⟩
    split
    · exact List.forall_mem_singleton.mpr hrange
    · nofun
  · nofun

theorem exists_violationsAll_iff {ns : List (Node (Json κ))} :
    (∃ found, violationsAll s ns = .ok found) ↔
      ∀ n ∈ ns, ∃ found, n.violations? s = some found := by
  induction ns with
  | nil => simp [violationsAll]
  | cons n rest ih =>
    rw [List.forall_mem_cons, ← ih]
    simp only [violationsAll_cons_eq_ok_iff, violations?_eq_some_iff]
    constructor
    · rintro ⟨_, first, others, hfirst, hothers, rfl⟩
      exact ⟨⟨first, hfirst⟩, others, hothers⟩
    · rintro ⟨⟨first, hfirst⟩, others, hothers⟩
      exact ⟨_, first, others, hfirst, hothers, rfl⟩

/-- A tree is judged if its root is and, unless that is a piece of text, the trees of its
children. -/
theorem exists_violations?_step : (∃ found, n.violations? s = some found) ↔
    n.IsJudged s ∧
      (n.isOpen = true → ∀ child ∈ n.children, ∃ found, child.violations? s = some found) := by
  have hjudged : n.IsJudged s ↔
      (∀ v ∈ n.kindViolations, v.isTold s = true) ∧ ∃ own, n.toldSpan s = .ok own := by
    rw [exists_toldSpan_iff]
    constructor
    · rintro ⟨hrange, hdepth, hreaches, hloc⟩
      exact ⟨(forall_kindViolations_isTold_iff hrange).mpr hdepth, hrange, hreaches, hloc⟩
    · rintro ⟨hkind, hrange, hreaches, hloc⟩
      exact ⟨hrange, (forall_kindViolations_isTold_iff hrange).mp hkind, hreaches, hloc⟩
  rw [← exists_violationsAll_iff, hjudged]
  simp only [violations?_eq_some_iff, violations_eq_ok_iff]
  constructor
  · rintro ⟨found, hkind, own, hown, hbelow⟩
    refine ⟨⟨hkind, own, hown⟩, fun hopen => ?_⟩
    rw [if_pos hopen] at hbelow
    obtain ⟨-, below, hbelow, -⟩ := hbelow
    exact ⟨below, hbelow⟩
  · rintro ⟨⟨hkind, own, hown⟩, hbelow⟩
    by_cases hopen : n.isOpen = true
    · obtain ⟨below, hbelow⟩ := hbelow hopen
      have hrange := (hjudged.mpr ⟨hkind, own, hown⟩).range
      have hranges (child : Node (Json κ)) (hchild : child ∈ n.children) :
          child.range.numbers.all s.writes = true := by
        obtain ⟨found, hfound⟩ := exists_violationsAll_iff.mp ⟨below, hbelow⟩ child hchild
        obtain ⟨-, own, hown, -⟩ := violations_eq_ok_iff.mp (violations?_eq_some_iff.mp hfound)
        exact (exists_toldSpan_iff.mp ⟨own, hown⟩).1
      have hfamily := forall_familyViolations_isTold hrange hranges
      exact ⟨_, hkind, own, hown, by rw [if_pos hopen]; exact ⟨hfamily, below, hbelow, rfl⟩⟩
    · exact ⟨_, hkind, own, hown, by rw [if_neg hopen]⟩

/-- A tree is judged exactly if all nodes that the validator comes to are. -/
theorem exists_violations?_iff : (∃ found, n.violations? s = some found) ↔
    ∀ m, n.ComesTo m → m.IsJudged s := by
  induction n using induction with
  | step n ih =>
    rw [exists_violations?_step]
    constructor
    · rintro ⟨hself, hbelow⟩ m hm
      cases hm with
      | self => exact hself
      | child hopen hchild hm => exact (ih _ hchild).mp (hbelow hopen _ hchild) m hm
    · intro h
      refine ⟨h n (.self n), fun hopen child hchild => (ih child hchild).mpr fun m hm => ?_⟩
      exact h m (.child hopen hchild hm)

end Told

end Node

end Asciidoc
