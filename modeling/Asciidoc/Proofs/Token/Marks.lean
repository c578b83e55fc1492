import Asciidoc.Proofs.Token.Leads

/-!
# The marks of lists

What tells the lists of a text apart are the markers of their items and the delimiters of their
terms. Numerals of one style share a marker, so there are no more than eighteen of these marks: one
to five asterisks or points, a dash, three styles of numerals, two to four colons, and two
semicolons.
-/

namespace Asciidoc

open Text

namespace Token

/-- The markers of list items. -/
def markers : List Text :=
  ((List.range 5).map fun n => List.replicate (n + 1) '*') ++ ['-'] ::
    ((List.range 5).map fun n => List.replicate (n + 1) '.') ++
      [['1', '.'], ['a', '.'], ['A', '.']]

/-- The delimiters of terms. -/
def delimiters : List Text :=
  ((List.range 3).map fun n => List.replicate (n + 2) ':') ++ [[';', ';']]

/-- The marks of lists. -/
def marks : List Text := markers ++ delimiters

example : marks.length = 18 := by decide

end Token

/-! ## Shapes -/

namespace Shape

variable {t body marker delimiter description : Text}

/-- Marks that go on for a while, but not for long. -/
theorem takeWhile_mem {mark : Char} {low count : Nat}
    (hlow : low ≤ (t.takeWhile (· == mark)).length)
    (hhigh : (t.takeWhile (· == mark)).length < low + count) :
    t.takeWhile (· == mark) ∈ (List.range count).map fun n => List.replicate (n + low) mark := by
  refine List.mem_map.mpr ⟨(t.takeWhile (· == mark)).length - low, List.mem_range.mpr (by omega), ?_⟩
  rw [Nat.sub_add_cancel hlow]
  exact (takeWhile_eq_replicate mark t).symm

/-- A text that begins with a mark has at least one. -/
theorem one_le_length_takeWhile (mark : Char) (rest : Text) :
    1 ≤ ((mark :: rest).takeWhile (· == mark)).length := by
  rw [List.takeWhile_cons_of_pos (by simp), List.length_cons]
  exact Nat.le_add_left 1 _

theorem unorderedItem?_mem (h : unorderedItem? t = some (marker, body)) :
    marker ∈ Token.markers := by
  unfold unorderedItem? at h
  split at h
  · obtain ⟨rfl, -⟩ := afterBlanks?_map_eq h
    decide
  next rest =>
    dsimp only at h
    split at h
    next hle =>
      obtain ⟨rfl, -⟩ := afterBlanks?_map_eq h
      exact List.mem_append_left _ (List.mem_append_left _
        (takeWhile_mem (one_le_length_takeWhile '*' rest) (by omega)))
    next => cases h
  · cases h

theorem orderedItem?_mem (h : orderedItem? t = some (marker, body)) : marker ∈ Token.markers := by
  unfold orderedItem? at h
  split at h
  next rest =>
    dsimp only at h
    split at h
    next hle =>
      obtain ⟨rfl, -⟩ := afterBlanks?_map_eq h
      have hhigh : (('.' :: rest).takeWhile (· == '.')).length < 1 + 5 := by omega
      have hmem := takeWhile_mem (one_le_length_takeWhile '.' rest) hhigh
      simp only [Token.markers, List.mem_append, List.mem_cons]
      exact .inl (.inr (.inr hmem))
    next => cases h
  next c rest _ =>
    split at h
    · split at h
      next =>
        obtain ⟨rfl, -⟩ := afterBlanks?_map_eq h
        decide
      next => cases h
    · split at h
      · split at h
        next =>
          obtain ⟨rfl, -⟩ := afterBlanks?_map_eq h
          split <;> decide
        next => cases h
      · cases h
  · cases h

theorem delimiter?_mem (h : delimiter? t = some (delimiter, description)) :
    delimiter ∈ Token.delimiters := by
  unfold delimiter? at h
  split at h
  · obtain ⟨_, -, hpair⟩ := Option.map_eq_some_iff.mp h
    obtain ⟨rfl, -⟩ := Prod.mk.inj hpair
    decide
  · dsimp only at h
    split at h
    next hlength =>
      rw [Bool.and_eq_true, decide_eq_true_eq, decide_eq_true_eq] at hlength
      obtain ⟨hlow, hhigh⟩ := hlength
      obtain ⟨_, -, hpair⟩ := Option.map_eq_some_iff.mp h
      obtain ⟨rfl, -⟩ := Prod.mk.inj hpair
      exact List.mem_append_left _ (takeWhile_mem hlow (by omega))
    next => cases h
  · cases h

theorem term?_mem {term : Text} (h : term? t = some (term, delimiter, description)) :
    delimiter ∈ Token.delimiters := by
  fun_induction term? t generalizing term with
  | case1 => cases h
  | case2 c rest d found hfound =>
    obtain ⟨-, rfl, -⟩ : [c] = term ∧ d = delimiter ∧ found = description := by
      simpa using h
    split at hfound
    · cases hfound
    · exact delimiter?_mem hfound
  | case3 => cases h
  | case4 c rest _ _ ih =>
    obtain ⟨⟨shorter, parts⟩, hshorter, hpair⟩ := Option.map_eq_some_iff.mp h
    obtain ⟨-, rfl⟩ := Prod.mk.inj hpair
    exact ih hshorter

end Shape

/-! ## Lines -/

namespace Token

/-- The marker of an item or the delimiter of a term. -/
def Kind.mark? : Kind → Option Text
  | .unorderedItem marker _ | .orderedItem marker => some marker
  | .term delimiter _ => some delimiter
  | _ => none

variable {line marker : Text}

/-- A line of a kind has one of the marks, if any. -/
def IsMarked (kind : Kind) : Prop := ∀ mark, kind.mark? = some mark → mark ∈ marks

theorem isMarked_of_none {kind : Kind} (h : kind.mark? = none) : IsMarked kind := by
  intro mark hmark
  rw [h] at hmark
  cases hmark

theorem isMarked_of_marker {kind : Kind} {m : Text} (h : kind.mark? = some m)
    (hmem : m ∈ markers) : IsMarked kind := by
  intro mark hmark
  rw [h] at hmark
  obtain rfl := Option.some.inj hmark
  exact List.mem_append_left _ hmem

theorem shape_isMarked (line : Text) : IsMarked (shape line).1 := by
  apply shape_cases (Q := fun p => IsMarked p.1)
  case delimiter =>
    intro p hp
    unfold delimiterShape? at hp
    repeat' split at hp
    all_goals first
      | (obtain rfl := Option.some.inj hp; exact isMarked_of_none rfl)
      | cases hp
  case flush =>
    intro p hp
    unfold flushShape? at hp
    repeat' split at hp
    all_goals first
      | (obtain rfl := Option.some.inj hp; exact isMarked_of_none rfl)
      | (obtain ⟨_, -, rfl⟩ := Option.map_eq_some_iff.mp hp; exact isMarked_of_none rfl)
  case list =>
    intro p hp
    unfold listShape? at hp
    split at hp
    · obtain rfl := Option.some.inj hp
      exact isMarked_of_none rfl
    · split at hp
      next hitem =>
        split at hp
        all_goals
          obtain rfl := Option.some.inj hp
          exact isMarked_of_marker rfl (Shape.unorderedItem?_mem hitem)
      next =>
        obtain ⟨⟨m, text⟩, hitem, rfl⟩ := Option.map_eq_some_iff.mp hp
        exact isMarked_of_marker rfl (Shape.orderedItem?_mem hitem)
  case title => exact fun _ _ => isMarked_of_none rfl
  case term =>
    intro term delimiter description hparts mark hmark
    obtain rfl := Option.some.inj hmark
    exact List.mem_append_right _ (Shape.term?_mem hparts)
  case text => exact isMarked_of_none rfl

/-- A line of a list has one of the marks. -/
theorem ofLine_isMarked (marker : Text) (number : Int) (line : Text) :
    IsMarked (ofLine marker number line).kind := by
  show IsMarked (classify marker (dropReturns line)).1
  rw [classify]
  split
  · exact isMarked_of_none rfl
  split
  · exact isMarked_of_none rfl
  split
  · exact isMarked_of_none rfl
  · exact shape_isMarked _

end Token

end Asciidoc
