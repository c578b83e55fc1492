import Asciidoc.Proofs.Span.Taken
import Mathlib.Data.Int.LeastGreatest
import Mathlib.Data.Nat.Find
import Mathlib.Order.Bounds.Defs

/-!
# What the search for lines answers

The search is written as it runs: it goes through the lines of a window, at each of them holds
the expected lines against one line after the other, and passes comments by on the way. What it
answers can be said without any of that. The lines from a number on that count are those that are
no comments; a number matches when the expected lines occur in the first of these, one in each;
and the answer is the place of the expected lines for the least number of the window that matches
(`find?_least`).

The two meet in `match?_iff`, which is about one number, and in `search?_eq_some_iff`, which is
about the order in which numbers are tried.
-/

namespace Asciidoc

open Text

/-! ## The first column of a text in a line -/

/-- A text stands in a line from a column on. At the end of the line the empty text does. -/
def Text.OccursAt (needle line : Text) (column : Nat) : Prop :=
  column ≤ line.length ∧ needle <+: line.drop column

instance (needle line : Text) (column : Nat) : Decidable (needle.OccursAt line column) :=
  inferInstanceAs (Decidable (column ≤ line.length ∧ needle <+: line.drop column))

/-- The first column, from a given one on, at which a text stands in a line. -/
def Text.IsFirstFrom (needle line : Text) (start : Int) (column : Nat) : Prop :=
  IsLeast {k : Nat | start ≤ k ∧ needle.OccursAt line k} column

namespace Text

variable {needle line : Text}

theorem occursAt_succ {c : Char} {column : Nat} :
    needle.OccursAt (c :: line) (column + 1) ↔ needle.OccursAt line column := by
  simp [OccursAt]

/-- The first occurrence is the least. -/
theorem occurrence?_eq_some_iff {column : Nat} :
    occurrence? needle line = some column ↔ IsLeast {k | needle.OccursAt line k} column := by
  induction line generalizing column with
  | nil =>
    have hat : ∀ k, needle.OccursAt [] k ↔ k = 0 ∧ needle = [] := by simp [OccursAt]
    rw [occurrence?]
    by_cases hneedle : needle = []
    · rw [if_pos hneedle, Option.some.injEq]
      constructor
      · rintro rfl
        exact ⟨(hat 0).mpr ⟨rfl, hneedle⟩, fun _ _ => Nat.zero_le _⟩
      · intro h
        exact ((hat column).mp h.1).1.symm
    · rw [if_neg hneedle]
      refine iff_of_false (fun h => ?_) fun h => hneedle ((hat column).mp h.1).2
      cases h
  | cons c rest ih =>
    have hzero : needle.OccursAt (c :: rest) 0 ↔ needle.isPrefixOf (c :: rest) = true := by
      rw [List.isPrefixOf_iff_prefix]
      simp [OccursAt]
    rw [occurrence?]
    by_cases hbegins : needle.isPrefixOf (c :: rest) = true
    · rw [if_pos hbegins, Option.some.injEq]
      constructor
      · rintro rfl
        exact ⟨hzero.mpr hbegins, fun _ _ => Nat.zero_le _⟩
      · intro h
        exact (Nat.le_zero.mp (h.2 (hzero.mpr hbegins))).symm
    · rw [if_neg hbegins, Option.map_eq_some_iff]
      constructor
      · rintro ⟨k, hk, rfl⟩
        obtain ⟨hat, hleast⟩ := ih.mp hk
        refine ⟨occursAt_succ.mpr hat, fun j hj => ?_⟩
        cases j with
        | zero => exact absurd (hzero.mp hj) hbegins
        | succ j => exact Nat.succ_le_succ (hleast (occursAt_succ.mp hj))
      · intro h
        cases column with
        | zero => exact absurd (hzero.mp h.1) hbegins
        | succ column =>
          refine ⟨column, ih.mpr ⟨occursAt_succ.mp h.1, fun j hj => ?_⟩, rfl⟩
          exact Nat.le_of_succ_le_succ (h.2 (occursAt_succ.mpr hj))

theorem occursAt_drop {first column : Nat} (h : first ≤ line.length) :
    needle.OccursAt (line.drop first) column ↔ needle.OccursAt line (first + column) := by
  unfold OccursAt
  rw [List.drop_drop, List.length_drop]
  constructor
  · intro ⟨hcolumn, hbegins⟩
    exact ⟨by omega, hbegins⟩
  · intro ⟨hcolumn, hbegins⟩
    exact ⟨by omega, hbegins⟩

/-- What is found from a column on is the first column from there on. -/
theorem find?_eq_some_iff {start : Int} (hstart : 0 ≤ start) {column : Nat} :
    find? needle line start = some column ↔ needle.IsFirstFrom line start column := by
  obtain ⟨first, rfl⟩ := Int.eq_ofNat_of_zero_le hstart
  have hfirst : Text.column line.length first = first := by
    rw [Text.column, if_neg (by omega)]
    rfl
  rw [find?, hfirst]
  by_cases hlength : line.length < first
  · rw [if_pos hlength]
    constructor
    · intro h
      cases h
    · rintro ⟨⟨hge, hle, -⟩, -⟩
      omega
  rw [if_neg hlength, Option.map_eq_some_iff]
  constructor
  · rintro ⟨k, hk, rfl⟩
    obtain ⟨hat, hleast⟩ := occurrence?_eq_some_iff.mp hk
    refine ⟨⟨by omega, (occursAt_drop (by omega)).mp hat⟩, ?_⟩
    rintro j ⟨hj, hoccurs⟩
    obtain ⟨i, rfl⟩ := Nat.exists_eq_add_of_le (Int.ofNat_le.mp hj)
    exact Nat.add_le_add_left (hleast ((occursAt_drop (by omega)).mpr hoccurs)) first
  · rintro ⟨⟨hge, hoccurs⟩, hleast⟩
    obtain ⟨k, rfl⟩ := Nat.exists_eq_add_of_le (Int.ofNat_le.mp hge)
    refine ⟨k, occurrence?_eq_some_iff.mpr ⟨(occursAt_drop (by omega)).mpr hoccurs, ?_⟩, rfl⟩
    intro j hj
    have := hleast ⟨by omega, (occursAt_drop (by omega)).mp hj⟩
    omega

/-- A text that stands somewhere from a column on is found from there on. -/
theorem exists_find?_iff {start : Int} (hstart : 0 ≤ start) :
    (∃ column, find? needle line start = some column) ↔
      ∃ column : Nat, start ≤ column ∧ needle.OccursAt line column := by
  constructor
  · rintro ⟨column, h⟩
    exact ⟨column, ((find?_eq_some_iff hstart).mp h).1⟩
  · rintro ⟨column, h⟩
    classical
    have hsome : ∃ k : Nat, start ≤ k ∧ needle.OccursAt line k := ⟨column, h⟩
    exact ⟨Nat.find hsome, (find?_eq_some_iff hstart).mpr
      ⟨Nat.find_spec hsome, fun k hk => Nat.find_min' hsome hk⟩⟩

end Text

/-! ## What the answer is to be -/

namespace Source

/-- The numbered lines of a text from a number on; comments do not count where they are passed
by. -/
def linesFrom (s : Source) (marker : Text) (skip : Bool) (number : Int) : List (Int × Text) :=
  s.numbered.filter fun entry =>
    decide (number ≤ entry.1) && !(skip && marker.isPrefixOf entry.2)

/-- The lines that some expected lines are held against from a number on. -/
def linesFor (s : Source) (marker : Text) (expected : List Text) (w : Window) (number : Int) :
    List (Int × Text) :=
  (s.linesFrom marker w.skipComments number).take expected.length

/-- The numbers that a window offers for some expected lines. -/
def Offers (s : Source) (expected : List Text) (w : Window) (number : Int) : Prop :=
  max w.minLine 1 ≤ number ∧ number ≤ min w.maxLine s.count - expected.length + 1

/-- The expected lines occur in the lines from a number on. -/
structure Matches (s : Source) (marker : Text) (expected : List Text) (w : Window)
    (number : Int) : Prop where
  /-- There are as many lines as are expected. -/
  length_eq : (s.linesFor marker expected w number).length = expected.length
  /-- The first expected line stands in the first, from the column of the window on. -/
  first : ∃ (piece : Text) (entry : Int × Text) (column : Nat), expected.head? = some piece ∧
    (s.linesFor marker expected w number).head? = some entry ∧
      w.startColumn ≤ column ∧ piece.OccursAt entry.2 column
  /-- Each of the others stands in its line. -/
  others : List.Forall₂ (fun piece entry => ∃ column, piece.OccursAt entry.2 column)
    expected.tail (s.linesFor marker expected w number).tail

/-- A location runs from the first to the last of expected lines, as they occur in the lines from
a number on. -/
structure RunsFrom (s : Source) (marker : Text) (expected : List Text) (w : Window) (number : Int)
    (l : Location) : Prop where
  /-- It starts where the first does; a text that looks like a comment starts with its line. -/
  start : ∃ (piece : Text) (entry : Int × Text) (column : Nat), expected.head? = some piece ∧
    (s.linesFor marker expected w number).head? = some entry ∧
      piece.IsFirstFrom entry.2 w.startColumn column ∧
        l.start = ⟨entry.1, if marker <+: piece then 0 else column⟩
  /-- It ends where the last does; the column of the window is for the first line alone. -/
  stop : ∃ (piece : Text) (entry : Int × Text) (column : Nat), expected.getLast? = some piece ∧
    (s.linesFor marker expected w number).getLast? = some entry ∧
      piece.IsFirstFrom entry.2 (if expected.length = 1 then w.startColumn else 0) column ∧
        l.stop = ⟨entry.1, column + piece.length⟩

end Source

/-! ## One number -/

namespace Window

variable {w : Window} {marker : Text}

/-- The lines that are kept are those that are no comments, where comments are passed by. -/
theorem kept_eq_filter (lines : List (Int × Text)) :
    w.kept marker lines
      = lines.filter fun entry => !(w.skipComments && marker.isPrefixOf entry.2) := by
  unfold kept
  cases w.skipComments with
  | true => rfl
  | false => simp

/-- What was matched at the first of some lines, in terms of the lines that are kept. -/
theorem exists_of_match? {first : Text} {others : List Text} {lines : List (Int × Text)}
    {l : Location} (h : w.match? marker first others lines = some l) :
    ∃ (entry : Int × Text) (more : List (Int × Text)) (column : Nat),
      w.kept marker lines = entry :: more ∧
      Text.find? first entry.2 w.startColumn = some column ∧
      List.Forall₂ (fun piece entry => piece <:+: entry.2) others (more.take others.length) ∧
      l.start = ⟨entry.1, if marker.isPrefixOf first then 0 else column⟩ ∧
      (others = [] ∧ l.stop = ⟨entry.1, column + first.length⟩ ∨
        EndsIn others (more.take others.length) l.stop) := by
  rw [match?] at h
  split at h
  next => cases h
  next number line rest hpass =>
    split at h
    next => cases h
    next column hcolumn =>
      obtain ⟨p, hstop, rfl⟩ := Option.map_eq_some_iff.mp h
      have hlines := inLines_of_stop? hstop
      obtain ⟨q, hq, hends⟩ := exists_stop? _ hlines
      obtain rfl : q = p := Option.some.inj (hq.symm.trans hstop)
      exact ⟨(number, line), w.kept marker rest, column, kept_of_pass hpass, hcolumn, hlines, rfl,
        hends⟩

/-- Expected lines that are in the lines that are kept are matched. -/
theorem exists_match? {first : Text} {others : List Text} {lines more : List (Int × Text)}
    {entry : Int × Text} {column : Nat} (hkept : w.kept marker lines = entry :: more)
    (hcolumn : Text.find? first entry.2 w.startColumn = some column)
    (hothers : List.Forall₂ (fun piece entry => piece <:+: entry.2) others
      (more.take others.length)) :
    ∃ l, w.match? marker first others lines = some l := by
  obtain ⟨rest, hpass, rfl⟩ := exists_pass_eq hkept
  obtain ⟨p, hstop, -⟩ := exists_stop? ⟨entry.1, column + first.length⟩ hothers
  refine ⟨⟨⟨entry.1, if marker.isPrefixOf first then 0 else column⟩, p⟩, ?_⟩
  rw [match?, hpass]
  simp only [hcolumn, hstop, Option.map_some]

/-- The first number that matches is the answer. -/
theorem search?_eq_some_iff {first : Text} {others : List Text} {tries : Nat}
    {lines : List (Int × Text)} {l : Location} :
    w.search? marker first others tries lines = some l ↔
      ∃ index < tries, w.match? marker first others (lines.drop index) = some l ∧
        ∀ earlier < index, w.match? marker first others (lines.drop earlier) = none := by
  have hnone : w.match? marker first others [] = none := by simp [match?, pass]
  induction tries generalizing lines with
  | zero =>
    refine iff_of_false (fun h => by cases lines <;> cases h) ?_
    rintro ⟨index, hindex, -⟩
    cases hindex
  | succ tries ih =>
    cases lines with
    | nil =>
      refine iff_of_false (fun h => by cases h) ?_
      rintro ⟨index, -, hmatch, -⟩
      rw [List.drop_nil, hnone] at hmatch
      cases hmatch
    | cons line rest =>
      rw [search?]
      cases hmatch : w.match? marker first others (line :: rest) with
      | some found =>
        dsimp only
        constructor
        · rintro ⟨⟩
          exact ⟨0, Nat.zero_lt_succ _, hmatch, fun _ h => absurd h (Nat.not_lt_zero _)⟩
        · rintro ⟨index, -, hindex, hearlier⟩
          cases index with
          | zero => exact hmatch.symm.trans hindex
          | succ index =>
            have := hearlier 0 (Nat.zero_lt_succ _)
            rw [List.drop_zero, hmatch] at this
            cases this
      | none =>
        refine ih.trans ?_
        constructor
        · rintro ⟨index, hindex, hfound, hearlier⟩
          refine ⟨index + 1, Nat.succ_lt_succ hindex, hfound, fun earlier hlt => ?_⟩
          cases earlier with
          | zero => exact hmatch
          | succ earlier => exact hearlier earlier (Nat.lt_of_succ_lt_succ hlt)
        · rintro ⟨index, hindex, hfound, hearlier⟩
          cases index with
          | zero =>
            rw [List.drop_zero, hmatch] at hfound
            cases hfound
          | succ index =>
            exact ⟨index, Nat.lt_of_succ_lt_succ hindex, hfound, fun earlier hlt =>
              hearlier (earlier + 1) (Nat.succ_lt_succ hlt)⟩

end Window

/-! ## The least number -/

namespace Source

variable {s : Source} {marker first : Text} {others : List Text} {w : Window} {number : Int}
  {l : Location}

/-- The lines from a number on are those behind the lines before it. -/
theorem linesFrom_eq (hnumber : 1 ≤ number) :
    s.linesFrom marker w.skipComments number
      = w.kept marker (s.numbered.drop (number - 1).toNat) := by
  have hbefore : ∀ entry ∈ s.numbered.take (number - 1).toNat, ¬number ≤ entry.1 := by
    intro entry hentry
    obtain ⟨index, hindex⟩ := List.mem_iff_getElem?.mp hentry
    rw [List.getElem?_take] at hindex
    split at hindex
    · have := (line_of_getElem?_numbered hindex).1
      omega
    · cases hindex
  have hfrom : ∀ entry ∈ s.numbered.drop (number - 1).toNat, number ≤ entry.1 := by
    intro entry hentry
    obtain ⟨index, hindex⟩ := List.mem_iff_getElem?.mp hentry
    rw [List.getElem?_drop] at hindex
    have := (line_of_getElem?_numbered hindex).1
    omega
  rw [linesFrom, Window.kept_eq_filter]
  conv_lhs => rw [← List.take_append_drop (number - 1).toNat s.numbered, List.filter_append]
  rw [List.filter_eq_nil_iff.mpr fun entry hentry => by simp [hbefore entry hentry],
    List.nil_append]
  exact List.filter_congr fun entry hentry => by simp [hfrom entry hentry]

theorem occursAt_iff_infix {piece line : Text} :
    (∃ column, piece.OccursAt line column) ↔ piece <:+: line := by
  constructor
  · rintro ⟨column, -, hbegins⟩
    exact hbegins.isInfix.trans (List.drop_suffix _ _).isInfix
  · rintro ⟨before, after, rfl⟩
    refine ⟨before.length, by simp, after, ?_⟩
    rw [List.append_assoc, List.drop_left]

/-- What is matched at a number runs over the lines from there on. -/
theorem runsFrom_of_match? (hcolumn : 0 ≤ w.startColumn) (hnumber : 1 ≤ number)
    (h : w.match? marker first others (s.numbered.drop (number - 1).toNat) = some l) :
    s.Matches marker (first :: others) w number ∧
      s.RunsFrom marker (first :: others) w number l := by
  obtain ⟨entry, more, column, hlines, hfound, hothers, hstart, hstop⟩ := Window.exists_of_match? h
  rw [← linesFrom_eq hnumber] at hlines
  have hfor : s.linesFor marker (first :: others) w number
      = entry :: more.take others.length := by
    rw [linesFor, hlines, List.length_cons, List.take_succ_cons]
  have hfirst := (Text.find?_eq_some_iff hcolumn).mp hfound
  refine ⟨⟨?_, ?_, ?_⟩, ⟨?_, ?_⟩⟩
  · rw [hfor, List.length_cons, List.length_cons, ← hothers.length_eq]
  · exact ⟨first, entry, column, rfl, by rw [hfor]; rfl, hfirst.1⟩
  · rw [hfor]
    exact hothers.imp fun piece entry hwithin => occursAt_iff_infix.mpr hwithin
  · refine ⟨first, entry, column, rfl, by rw [hfor]; rfl, hfirst, ?_⟩
    simpa only [List.isPrefixOf_iff_prefix] using hstart
  · rw [hfor]
    rcases hstop with ⟨rfl, hstop⟩ | ⟨last, final, found, hlast, hfinal, hfound, hstop⟩
    · exact ⟨first, entry, column, rfl, rfl, hfirst, hstop⟩
    · have hmany : (first :: others).length ≠ 1 := by
        intro hone
        rw [List.length_eq_zero_iff.mp (Nat.succ.inj hone)] at hlast
        cases hlast
      rw [if_neg hmany]
      refine ⟨last, final, found, ?_, ?_, ?_, hstop⟩
      · rw [List.getLast?_cons, hlast, Option.getD_some]
      · rw [List.getLast?_cons, hfinal, Option.getD_some]
      · exact (Text.find?_eq_some_iff (Int.le_refl 0)).mp hfound

/-- At a number that matches the search matches. -/
theorem Matches.exists_match? (hcolumn : 0 ≤ w.startColumn) (hnumber : 1 ≤ number)
    (h : s.Matches marker (first :: others) w number) :
    ∃ l, w.match? marker first others (s.numbered.drop (number - 1).toNat) = some l := by
  obtain ⟨piece, entry, column, hpiece, hentry, hat⟩ := h.first
  obtain rfl : first = piece := Option.some.inj hpiece
  have hothers := h.others
  rw [linesFor, linesFrom_eq hnumber] at hentry hothers
  cases hkept : w.kept marker (s.numbered.drop (number - 1).toNat) with
  | nil =>
    rw [hkept] at hentry
    cases hentry
  | cons line more =>
    rw [hkept, List.length_cons, List.take_succ_cons] at hentry hothers
    obtain rfl : line = entry := Option.some.inj hentry
    obtain ⟨found, hfound⟩ := (Text.exists_find?_iff hcolumn).mpr ⟨column, hat⟩
    exact Window.exists_match? hkept hfound
      (hothers.imp fun piece entry hoccurs => occursAt_iff_infix.mp hoccurs)

/-- The search answers with the first number of the window at which it matches. -/
theorem find?_eq_some_iff :
    s.find? marker (first :: others) w = some l ↔
      ∃ number, s.Offers (first :: others) w number ∧
        w.match? marker first others (s.numbered.drop (number - 1).toNat) = some l ∧
        ∀ earlier, s.Offers (first :: others) w earlier → earlier < number →
          w.match? marker first others (s.numbered.drop (earlier - 1).toNat) = none := by
  have hdrop (index : Nat) : (s.numbered.drop (max w.minLine 1 - 1).toNat).drop index
      = s.numbered.drop (max w.minLine 1 + index - 1).toNat := by
    rw [List.drop_drop]
    congr 1
    omega
  have hback (number : Int) (h : max w.minLine 1 ≤ number) :
      max w.minLine 1 + ((number - max w.minLine 1).toNat : Int) = number := by
    omega
  rw [find?, Window.candidates]
  dsimp only
  rw [Window.search?_eq_some_iff]
  unfold Offers
  constructor
  · rintro ⟨index, hindex, hmatch, hearlier⟩
    refine ⟨max w.minLine 1 + index, by omega, hdrop index ▸ hmatch, fun earlier hoffers hlt => ?_⟩
    have := hearlier (earlier - max w.minLine 1).toNat (by omega)
    rwa [hdrop, hback earlier hoffers.1] at this
  · rintro ⟨number, hoffers, hmatch, hearlier⟩
    refine ⟨(number - max w.minLine 1).toNat, by omega, ?_, fun index hindex => ?_⟩
    · rwa [hdrop, hback number hoffers.1]
    · rw [hdrop]
      exact hearlier _ (by omega) (by omega)

/-- At the least number of the window that matches, the search finds the expected lines. -/
theorem exists_find?_of_isLeast {s : Source} {marker : Text} {expected : List Text} {w : Window}
    (hcolumn : 0 ≤ w.startColumn) {number : Int}
    (h : IsLeast {c | s.Offers expected w c ∧ s.Matches marker expected w c} number) :
    ∃ l, s.find? marker expected w = some l ∧ s.RunsFrom marker expected w number l := by
  obtain ⟨⟨hoffers, hmatches⟩, hleast⟩ := h
  cases expected with
  | nil =>
    obtain ⟨_, _, _, hpiece, -⟩ := hmatches.first
    cases hpiece
  | cons first others =>
    have hpos : 1 ≤ number := Int.le_trans (Int.le_max_right _ _) hoffers.1
    obtain ⟨l, hmatch⟩ := hmatches.exists_match? hcolumn hpos
    refine ⟨l, find?_eq_some_iff.mpr ⟨number, hoffers, hmatch, fun earlier hearlier hlt => ?_⟩,
      (runsFrom_of_match? hcolumn hpos hmatch).2⟩
    -- A match at an earlier number would make that number match, and the least is not behind it.
    cases hfound : w.match? marker first others (s.numbered.drop (earlier - 1).toNat) with
    | none => rfl
    | some found =>
      have hpos : 1 ≤ earlier := Int.le_trans (Int.le_max_right _ _) hearlier.1
      have := hleast ⟨hearlier, (runsFrom_of_match? hcolumn hpos hfound).1⟩
      omega

theorem exists_find?_iff {s : Source} {marker : Text} {expected : List Text} {w : Window}
    (hcolumn : 0 ≤ w.startColumn) :
    (∃ l, s.find? marker expected w = some l) ↔
      expected ≠ [] ∧ ∃ number, s.Offers expected w number ∧ s.Matches marker expected w number := by
  constructor
  · rintro ⟨l, h⟩
    cases expected with
    | nil => cases h
    | cons first others =>
      obtain ⟨number, hoffers, hmatch, -⟩ := find?_eq_some_iff.mp h
      have hpos : 1 ≤ number := Int.le_trans (Int.le_max_right _ _) hoffers.1
      exact ⟨List.cons_ne_nil _ _, number, hoffers, (runsFrom_of_match? hcolumn hpos hmatch).1⟩
  · rintro ⟨-, hsome⟩
    obtain ⟨number, h, hmin⟩ := Int.exists_least_of_bdd
      ⟨1, fun _ hn => Int.le_trans (Int.le_max_right _ _) hn.1.1⟩ hsome
    obtain ⟨l, hl, -⟩ := exists_find?_of_isLeast hcolumn ⟨h, fun _ hn => hmin _ hn⟩
    exact ⟨l, hl⟩

/-- The search finds expected lines exactly if there are any and a number of the window matches;
what it answers then are the places of the first and the last of them for the least such
number. -/
theorem find?_least (s : Source) (marker : Text) (expected : List Text) (w : Window)
    (hcolumn : 0 ≤ w.startColumn) :
    ((∃ l, s.find? marker expected w = some l) ↔
      expected ≠ [] ∧ ∃ number, s.Offers expected w number ∧ s.Matches marker expected w number) ∧
    ∀ number, IsLeast {c | s.Offers expected w c ∧ s.Matches marker expected w c} number →
      ∃ l, s.find? marker expected w = some l ∧ s.RunsFrom marker expected w number l :=
  ⟨exists_find?_iff hcolumn, fun _ h => exists_find?_of_isLeast hcolumn h⟩

/-- Of the numbers of five lines, the second is the least that matches: from the first on, the
last line is held against `b a`. The comments at the number itself and behind the first match are
passed by. -/
theorem find?_least_past_comments :
    let marker := ['/', '/']
    let s := Source.ofText "aa\n// x\nb a\n//\nc".toList
    let w : Window := { minLine := 1, maxLine := 5, startColumn := 1 }
    0 ≤ w.startColumn ∧ s.find? marker [['a'], ['c']] w = some ⟨⟨3, 2⟩, ⟨5, 1⟩⟩ ∧
      s.RunsFrom marker [['a'], ['c']] w 2 ⟨⟨3, 2⟩, ⟨5, 1⟩⟩ := by
  intro marker s w
  have hfound : s.find? marker [['a'], ['c']] w = some ⟨⟨3, 2⟩, ⟨5, 1⟩⟩ := by
    with_unfolding_all rfl
  have hleast : IsLeast {c | s.Offers [['a'], ['c']] w c ∧
      s.Matches marker [['a'], ['c']] w c} 2 := by
    refine ⟨⟨⟨by decide, by decide⟩, by with_unfolding_all rfl, ?_, ?_⟩, fun c hc => ?_⟩
    · exact ⟨['a'], (3, "b a".toList), 2, rfl, by with_unfolding_all rfl, by decide, by decide⟩
    · have hrest : (s.linesFor marker [['a'], ['c']] w 2).tail = [(5, ['c'])] := by
        with_unfolding_all rfl
      rw [hrest]
      exact .cons ⟨0, by decide⟩ .nil
    · obtain ⟨⟨hlow, -⟩, hmatches⟩ := hc
      by_contra hlt
      obtain rfl : c = 1 := by omega
      have hrest : (s.linesFor marker [['a'], ['c']] w 1).tail = [(3, "b a".toList)] := by
        with_unfolding_all rfl
      have hothers := hmatches.others
      rw [hrest] at hothers
      obtain ⟨⟨column, hcolumn⟩, -⟩ := List.forall₂_cons.mp hothers
      have hwithin := occursAt_iff_infix.mp ⟨column, hcolumn⟩
      exact absurd (hwithin.subset List.mem_cons_self) (by decide)
  obtain ⟨l, hl, hruns⟩ := (find?_least s marker [['a'], ['c']] w (by decide)).2 2 hleast
  obtain rfl := Option.some.inj (hfound.symm.trans hl)
  exact ⟨by decide, hfound, hruns⟩

end Source

end Asciidoc
