import Asciidoc.Proofs.Node.Told

/-!
# Stopping at the first violation

The validator either goes on past a violation or stops at the first. It is one walk through the
tree that meets the violations in one order: what is wrong with the fields of a node, with where it
stands, with its children among themselves, and then with the trees of the children. `Node.inspect`
is that walk, with the choice to stop as a parameter, one violation noted at a time.

A step of the walk comes to some violations if it notes all of them when it goes on, and notes the
first and fails with it when it stops (`Checking.Finds`). This is kept by doing one step after
another (`Finds.append`), so it holds of a whole walk once it holds of its steps. What is wrong with
one node is noted one violation after the other (`Checking.noteAll`), which comes to all of it if it
can be told. The walk that goes on is `Node.violations?` and the one that stops is `Node.validate`,
so the one stops exactly where the other has its first violation (`Node.validate_agrees`).
-/

namespace Asciidoc

/-! ## Steps that may stop -/

/-- A step of a check: it notes violations, and it may be cut short. -/
abbrev Checking := ExceptT CheckFault (StateM (List Violation))

/-- Fails with the first of some violations. -/
def Node.refuseFirst : List Violation → Except CheckFault Unit
  | [] => .ok ()
  | v :: _ => .error (.violation v)

namespace Checking

/-- Notes a violation; a check that is strict stops at it. One that cannot be told cuts the check
short before it is noted. -/
def note (strict : Bool) (s : Source) (v : Violation) : Checking Unit :=
  if v.isTold s then do
    modify (· ++ [v])
    if strict then throw (.violation v)
  else throw (.unjudged .numberTooLong)

/-- Notes a violation if there is one. -/
def noteIf (strict : Bool) (s : Source) (wrong : Prop) [Decidable wrong] (v : Violation) :
    Checking Unit :=
  if wrong then note strict s v else pure ()

/-- Notes violations one after the other. -/
def noteAll (strict : Bool) (s : Source) : List Violation → Checking Unit
  | [] => pure ()
  | v :: rest => do
    note strict s v
    noteAll strict s rest

/-- What a check comes to behind the violations noted before: whether it was cut short, and all that
is noted then. -/
def outcome (check : Checking Unit) (noted : List Violation) :
    Except CheckFault Unit × List Violation :=
  check.run.run noted

/-- A check comes to some violations: it notes all of them if it is not strict, and otherwise notes
the first and stops at it. -/
structure Finds (check : Bool → Checking Unit) (found : List Violation) : Prop where
  collects : ∀ noted, outcome (check false) noted = (.ok (), noted ++ found)
  stops : ∀ noted, outcome (check true) noted = (Node.refuseFirst found, noted ++ found.take 1)

variable {check next : Bool → Checking Unit} {found more : List Violation} {noted : List Violation}
  {s : Source}

theorem outcome_bind (first second : Checking Unit) (noted : List Violation) :
    outcome (do first; second) noted =
      match outcome first noted with
      | (.ok (), after) => outcome second after
      | (.error fault, after) => (.error fault, after) := by
  simp only [outcome, ExceptT.run_bind, StateT.run_bind]
  rcases first.run.run noted with ⟨fault | _, after⟩ <;> rfl

/-- A step that notes nothing. -/
theorem Finds.nothing : Finds (fun _ => pure ()) [] where
  collects noted := by
    rw [List.append_nil]
    rfl
  stops noted := by
    rw [List.take_nil, List.append_nil]
    rfl

/-- A step that notes one violation. -/
theorem Finds.note {v : Violation} (h : v.isTold s = true) :
    Finds (fun strict => note strict s v) [v] where
  collects _ := by
    rw [Checking.note, if_pos h]
    rfl
  stops _ := by
    rw [Checking.note, if_pos h]
    rfl

/-- A step after another one comes to what the first does and then to what the second does. -/
theorem Finds.append (h : Finds check found) (hnext : Finds next more) :
    Finds (fun strict => do check strict; next strict) (found ++ more) where
  collects noted := by
    rw [outcome_bind, h.collects, ← List.append_assoc]
    exact hnext.collects (noted ++ found)
  stops noted := by
    rw [outcome_bind, h.stops]
    cases found with
    | nil => simpa [Node.refuseFirst] using hnext.stops noted
    | cons v rest => rfl

/-- Violations that can be told are noted. -/
theorem Finds.noteAll (h : ∀ v ∈ found, v.isTold s = true) :
    Finds (fun strict => noteAll strict s found) found := by
  induction found with
  | nil => exact .nothing
  | cons v rest ih =>
    obtain ⟨hv, hrest⟩ := List.forall_mem_cons.mp h
    exact (Finds.note hv).append (ih hrest)

theorem noteAll_append (strict : Bool) (found more : List Violation) :
    noteAll strict s (found ++ more) = (do noteAll strict s found; noteAll strict s more) := by
  induction found with
  | nil => rw [List.nil_append, noteAll, pure_bind]
  | cons v rest ih => rw [List.cons_append, noteAll, noteAll, ih, bind_assoc]

theorem noteAll_singleton (strict : Bool) (v : Violation) :
    noteAll strict s [v] = note strict s v := by
  rw [noteAll, noteAll]
  exact bind_pure_unit

theorem noteIf_eq (strict : Bool) (wrong : Prop) [Decidable wrong] (v : Violation) :
    noteIf strict s wrong v = noteAll strict s (if wrong then [v] else []) := by
  rw [noteIf]
  split
  · rw [noteAll_singleton]
  · rfl

/-! ## How steps end -/

/-- How a check comes to its end, whatever was noted before. -/
def Ends (check : Checking Unit) (result : Except CheckFault Unit) : Prop :=
  ∀ noted, (outcome check noted).1 = result

theorem ends_pure : Ends (pure ()) (.ok ()) := fun _ => rfl

theorem ends_throw (fault : CheckFault) : Ends (throw fault) (.error fault) := fun _ => rfl

/-- A check ends as the first of its steps that fails. -/
theorem Ends.append {first second : Checking Unit} {one other : Except CheckFault Unit}
    (h : first.Ends one) (hnext : one = .ok () → second.Ends other) :
    Ends (do first; second) (do one; other) := by
  intro noted
  rw [outcome_bind]
  have hone := h noted
  generalize outcome first noted = reached at hone
  obtain ⟨result, after⟩ := reached
  subst hone
  cases result with
  | ok => exact hnext rfl after
  | error fault => rfl

/-- How a walk that goes on ends, by whether its tree is judged. -/
def conclusion {α : Type} : Except JudgeFault α → Except CheckFault Unit
  | .ok _ => .ok ()
  | .error fault => .error (.unjudged fault)

/-- Steps that go on end as what they are to find is judged, one after the other. -/
theorem Ends.bind {α β : Type} {first second : Checking Unit} {x : Except JudgeFault α}
    {f : α → Except JudgeFault β} (h : first.Ends (conclusion x))
    (hnext : ∀ a, x = .ok a → second.Ends (conclusion (f a))) :
    Ends (do first; second) (conclusion (x >>= f)) := by
  cases x with
  | ok a => exact h.append fun _ => hnext a rfl
  | error fault =>
    have hnext : conclusion (.error fault : Except JudgeFault α) = .ok () → second.Ends (.ok ()) :=
      nofun
    exact h.append hnext

theorem conclusion_bind_pure {α β : Type} (x : Except JudgeFault α) (f : α → β) :
    conclusion (do let a ← x; pure (f a)) = conclusion x := by
  cases x <;> rfl

theorem noteAll_goes_on (found : List Violation) :
    (noteAll false s found).Ends (conclusion (Node.told s found)) := by
  induction found with
  | nil => exact ends_pure
  | cons v rest ih =>
    by_cases hv : v.isTold s = true
    · have htold : Node.told s (v :: rest) = (do let all ← Node.told s rest; pure (v :: all)) := by
        rw [Node.told, Node.told, List.all_cons, hv, Bool.true_and]
        split <;> rfl
      rw [htold, conclusion_bind_pure]
      intro noted
      rw [noteAll, outcome_bind, (Finds.note hv).collects]
      exact ih _
    · intro noted
      rw [noteAll, outcome_bind, note, if_neg hv, Node.told, List.all_cons,
        Bool.eq_false_iff.mpr hv]
      rfl

theorem noteAll_stops (found : List Violation) :
    (noteAll true s found).Ends (Node.refuse s found) := by
  cases found with
  | nil => exact ends_pure
  | cons v rest =>
    intro noted
    rw [noteAll, outcome_bind, Node.refuse, note]
    by_cases hv : v.isTold s = true
    · rw [if_pos hv, if_pos hv]
      rfl
    · rw [if_neg hv, if_neg hv]
      rfl

end Checking

/-! ## The walk -/

namespace Node

open Checking

variable {κ : Type} [DecidableEq κ] [CodePoints κ]

/-- Looks at the fields of a kind. -/
def inspectKind (strict : Bool) (s : Source) (n : Node (Json κ)) : Checking Unit :=
  match n.kind with
  | .header depth => noteIf strict s (depth < 1) (.depth n.range depth)
  | .str _ => noteIf strict s (n.children ≠ []) (.children n.range)
  | _ => pure ()

/-- Looks at where a node stands. Of a node with a range that is not in the text, no more is
looked at; a location on a line that is not there cuts the walk short. -/
def inspectSpan (strict : Bool) (s : Source) (n : Node (Json κ)) : Checking Unit :=
  if ¬(0 ≤ n.range.start ∧ n.range.start ≤ n.range.stop ∧ n.range.stop ≤ s.text.length) then
    note strict s (.outsideText n.name n.range s.text.length)
  else
    match s.range? n.loc with
    | none => throw (.unjudged .noSuchLine)
    | some range => do
      noteIf strict s (range ≠ n.range) (.otherRange n.name n.range n.loc)
      match n.raw with
      | none => pure ()
      | some raw =>
        noteIf strict s (raw.truthy ∧ !raw.isText (s.slice n.range)) (.otherText n.name n.range)

/-- Looks at the children of a node one after the other, with the furthest end so far. -/
def inspectSiblings (strict : Bool) (s : Source) (parent : Node (Json κ)) (reached : Int) :
    List (Node (Json κ)) → Checking Unit
  | [] => pure ()
  | child :: rest => do
    noteIf strict s (child.range.start < parent.range.start ∨ parent.range.stop < child.range.stop)
      (.outsideParent child.name child.range parent.name)
    noteIf strict s (child.range.start < reached) (.overlap child.name child.range)
    inspectSiblings strict s parent (max reached child.range.stop) rest

/-- Looks at a node and its children. -/
def inspectFamily (strict : Bool) (s : Source) (n : Node (Json κ)) : Checking Unit :=
  match n.children.head?, n.children.getLast? with
  | some first, some last => do
    noteIf strict s (n.loc.start ≠ first.loc.start ∨ n.loc.stop ≠ last.loc.stop)
      (.otherChildren n.name n.range)
    inspectSiblings strict s n n.range.start n.children
  | _, _ => pure ()

mutual

/-- Walks through a tree. -/
def inspect (strict : Bool) (s : Source) : Node (Json κ) → Checking Unit
  | .mk kind loc range raw children => do
    let n := Node.mk kind loc range raw children
    n.inspectKind strict s
    n.inspectSpan strict s
    if n.isOpen then
      n.inspectFamily strict s
      inspectAll strict s children

/-- Walks through trees. -/
def inspectAll (strict : Bool) (s : Source) : List (Node (Json κ)) → Checking Unit
  | [] => pure ()
  | n :: rest => do
    n.inspect strict s
    inspectAll strict s rest

end

variable {s : Source} {n : Node (Json κ)} {found : List Violation}

/-! ## What the steps note -/

omit [DecidableEq κ] [CodePoints κ] in
theorem inspectKind_eq (strict : Bool) (n : Node (Json κ)) :
    n.inspectKind strict s = noteAll strict s n.kindViolations := by
  unfold inspectKind kindViolations
  cases n.kind with
  | header depth => exact noteIf_eq strict _ _
  | str value =>
    rw [noteIf_eq]
    cases n.children <;> rfl
  | _ => rfl

/-- What is wrong with where a node stands is noted. -/
theorem inspectSpan_eq (strict : Bool) {own : List Violation} (h : n.spanViolations? s = some own) :
    n.inspectSpan strict s = noteAll strict s own := by
  unfold spanViolations? at h
  unfold inspectSpan
  split at h
  next hrange =>
    obtain rfl := Option.some.inj h
    rw [if_pos hrange, noteAll_singleton]
  next hrange =>
    obtain ⟨range, hloc, rfl⟩ := Option.map_eq_some_iff.mp h
    rw [if_neg hrange, noteAll_append]
    simp only [hloc, noteIf_eq, ne_eq, ite_not]
    congr 1
    funext _
    cases n.raw with
    | none => rfl
    | some raw =>
      by_cases htruthy : raw.truthy = true <;>
        by_cases htext : raw.isText (s.slice n.range) = true <;> simp [htruthy, htext]

/-- A location on a line that is not there cuts the walk short. -/
theorem inspectSpan_eq_throw (strict : Bool) (h : n.spanViolations? s = none) :
    n.inspectSpan strict s = throw (.unjudged .noSuchLine) := by
  unfold spanViolations? at h
  split at h
  · cases h
  next hrange => rw [inspectSpan, if_neg hrange, Option.map_eq_none_iff.mp h]

omit [DecidableEq κ] [CodePoints κ] in
theorem inspectSiblings_eq (strict : Bool) (parent : Node (Json κ)) (reached : Int)
    (children : List (Node (Json κ))) : inspectSiblings strict s parent reached children
      = noteAll strict s (siblingViolations parent reached children) := by
  induction children generalizing reached with
  | nil => rfl
  | cons child rest ih =>
    rw [siblingViolations, noteAll_append, noteAll_append, bind_assoc, inspectSiblings, noteIf_eq,
      noteIf_eq, ih]

omit [DecidableEq κ] [CodePoints κ] in
theorem inspectFamily_eq (strict : Bool) (n : Node (Json κ)) :
    n.inspectFamily strict s = noteAll strict s n.familyViolations := by
  unfold inspectFamily familyViolations
  cases n.children.head? with
  | none => rfl
  | some first =>
    cases n.children.getLast? with
    | none => rfl
    | some last => simp only [noteAll_append, noteIf_eq, inspectSiblings_eq]

/-! ## Whole walks -/

theorem inspect_eq (strict : Bool) (n : Node (Json κ)) :
    n.inspect strict s = (do
      n.inspectKind strict s
      n.inspectSpan strict s
      if n.isOpen then
        n.inspectFamily strict s
        inspectAll strict s n.children) := by
  cases n
  rfl

/-- A tree that is judged is walked through to all that is wrong with it. -/
theorem inspect_finds (h : n.violations? s = some found) :
    Finds (fun strict => n.inspect strict s) found := by
  induction n using induction generalizing found with
  | step n ih =>
    have hall (ns : List (Node (Json κ))) (hns : ns ⊆ n.children) {below : List Violation}
        (h : violationsAll s ns = .ok below) :
        Finds (fun strict => inspectAll strict s ns) below := by
      induction ns generalizing below with
      | nil =>
        obtain rfl := Except.ok.inj h
        exact .nothing
      | cons m rest ihrest =>
        obtain ⟨hm, hrest⟩ := List.cons_subset.mp hns
        obtain ⟨first, others, hfirst, hothers, rfl⟩ := violationsAll_cons_eq_ok_iff.mp h
        exact (ih m hm (violations?_eq_some_iff.mpr hfirst)).append (ihrest hrest hothers)
    obtain ⟨hkind, own, hown, hbelow⟩ := violations_eq_ok_iff.mp (violations?_eq_some_iff.mp h)
    obtain ⟨hspan, htold⟩ := toldSpan_eq_ok_iff.mp hown
    simp only [inspect_eq, inspectKind_eq, inspectSpan_eq _ hspan, inspectFamily_eq]
    by_cases hopen : n.isOpen = true
    · simp only [if_pos hopen] at hbelow ⊢
      obtain ⟨hfamily, below, hbelow, rfl⟩ := hbelow
      rw [List.append_assoc, List.append_assoc]
      exact (Finds.noteAll hkind).append ((Finds.noteAll htold).append
        ((Finds.noteAll hfamily).append (hall n.children (List.Subset.refl _) hbelow)))
    · simp only [if_neg hopen] at hbelow ⊢
      obtain rfl := hbelow
      have hend := (Finds.noteAll htold).append Finds.nothing
      rw [List.append_nil] at hend
      exact (Finds.noteAll hkind).append hend

theorem inspectSpan_stops (n : Node (Json κ)) : (n.inspectSpan true s).Ends (n.refuseSpan s) := by
  unfold refuseSpan
  split
  next hspan =>
    rw [inspectSpan_eq_throw true hspan]
    exact ends_throw _
  next own hspan =>
    rw [inspectSpan_eq true hspan]
    exact noteAll_stops own

theorem inspectSpan_goes_on (n : Node (Json κ)) :
    (n.inspectSpan false s).Ends (conclusion (n.toldSpan s)) := by
  unfold toldSpan
  split
  next hspan =>
    rw [inspectSpan_eq_throw false hspan]
    exact ends_throw _
  next own hspan =>
    rw [inspectSpan_eq false hspan]
    exact noteAll_goes_on own

theorem validate_eq (n : Node (Json κ)) :
    n.validate s = (do
      refuse s n.kindViolations
      n.refuseSpan s
      if n.isOpen then
        refuse s n.familyViolations
        validateAll s n.children) := by
  cases n
  rfl

/-- The walk that stops ends as the validator that stops. -/
theorem inspect_stops (n : Node (Json κ)) : (n.inspect true s).Ends (n.validate s) := by
  induction n using induction with
  | step n ih =>
    have hall (ns : List (Node (Json κ))) (hns : ns ⊆ n.children) :
        (inspectAll true s ns).Ends (validateAll s ns) := by
      induction ns with
      | nil => exact ends_pure
      | cons m rest ihrest =>
        obtain ⟨hm, hrest⟩ := List.cons_subset.mp hns
        exact (ih m hm).append fun _ => ihrest hrest
    rw [inspect_eq, validate_eq, inspectKind_eq, inspectFamily_eq]
    refine (noteAll_stops _).append fun _ => (inspectSpan_stops n).append fun _ => ?_
    by_cases hopen : n.isOpen = true
    · simp only [if_pos hopen]
      exact (noteAll_stops _).append fun _ => hall n.children (List.Subset.refl _)
    · simp only [if_neg hopen]
      exact ends_pure

/-- The walk that goes on is cut short exactly if the tree is not judged, for the same reason. -/
theorem inspect_goes_on (n : Node (Json κ)) :
    (n.inspect false s).Ends (conclusion (n.violations s)) := by
  induction n using induction with
  | step n ih =>
    have hall (ns : List (Node (Json κ))) (hns : ns ⊆ n.children) :
        (inspectAll false s ns).Ends (conclusion (violationsAll s ns)) := by
      induction ns with
      | nil => exact ends_pure
      | cons m rest ihrest =>
        obtain ⟨hm, hrest⟩ := List.cons_subset.mp hns
        refine (ih m hm).bind fun first _ => ?_
        rw [conclusion_bind_pure]
        exact ihrest hrest
    rw [inspect_eq, violations_eq, inspectKind_eq, inspectFamily_eq]
    refine (noteAll_goes_on _).bind fun fields _ => (inspectSpan_goes_on n).bind fun own _ => ?_
    by_cases hopen : n.isOpen = true
    · simp only [if_pos hopen]
      refine (noteAll_goes_on _).bind fun family _ => ?_
      rw [conclusion_bind_pure]
      exact hall n.children (List.Subset.refl _)
    · simp only [if_neg hopen]
      exact ends_pure

/-- The walk that goes on is the validator that collects. -/
theorem outcome_inspect_iff :
    outcome (n.inspect false s) [] = (.ok (), found) ↔ n.violations? s = some found := by
  cases h : n.violations s with
  | error fault =>
    have hnone : n.violations? s = none := by rw [violations?, h]; rfl
    refine iff_of_false (fun hok => ?_) (by simp [hnone])
    have hends := inspect_goes_on (s := s) n []
    rw [hok, h] at hends
    cases hends
  | ok all =>
    have hsome := violations?_eq_some_iff.mpr h
    rw [(inspect_finds hsome).collects, List.nil_append, hsome]
    simp

/-- Whenever all violations of a tree are collected, the validator that stops at the first comes to
the end if there are none, and otherwise refuses the tree for the first of them. Both are one walk,
which goes on or stops at what it notes. -/
theorem validate_agrees (h : n.violations? s = some found) :
    (n.validate s = match found with
      | [] => .ok ()
      | v :: _ => .error (.violation v)) ∧
    Finds (fun strict => n.inspect strict s) found := by
  have hfinds := inspect_finds h
  refine ⟨?_, hfinds⟩
  calc n.validate s = (outcome (n.inspect true s) []).1 := (inspect_stops n []).symm
    _ = refuseFirst found := congrArg Prod.fst (hfinds.stops [])
    _ = _ := by cases found <;> rfl

/-- A title without a depth that covers another text, as does the piece of text in it. -/
theorem validate_agrees_title :
    (Node.mk (.header 0) ⟨⟨1, 0⟩, ⟨1, 1⟩⟩ ⟨0, 1⟩ (some (.string ['t'])) [
        .mk (.str .null) ⟨⟨1, 0⟩, ⟨1, 1⟩⟩ ⟨0, 1⟩ (some (.string ['x'])) []]).violations?
      (Source.ofText ['T']) = some [.depth ⟨0, 1⟩ 0, .otherText "Header" ⟨0, 1⟩,
        .otherText "Str" ⟨0, 1⟩] ∧
    (Node.mk (.header 0) ⟨⟨1, 0⟩, ⟨1, 1⟩⟩ ⟨0, 1⟩ (some (.string ['t'])) [
        .mk (.str .null) ⟨⟨1, 0⟩, ⟨1, 1⟩⟩ ⟨0, 1⟩ (some (.string ['x'])) []]).validate
      (Source.ofText ['T']) = .error (.violation (.depth ⟨0, 1⟩ 0)) := by
  have hfound : (Node.mk (.header 0) ⟨⟨1, 0⟩, ⟨1, 1⟩⟩ ⟨0, 1⟩ (some (.string ['t'])) [
        .mk (.str .null) ⟨⟨1, 0⟩, ⟨1, 1⟩⟩ ⟨0, 1⟩ (some (.string ['x'])) []]).violations?
      (Source.ofText ['T']) = some [.depth ⟨0, 1⟩ 0, .otherText "Header" ⟨0, 1⟩,
        .otherText "Str" ⟨0, 1⟩] := by
    decide
  exact ⟨hfound, (validate_agrees hfound).1⟩

end Node

end Asciidoc
