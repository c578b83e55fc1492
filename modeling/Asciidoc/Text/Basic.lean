/-!
# Texts as lists of code points

Every offset and column of this library counts code points, so a text is kept as the list of
its code points and an offset is a list index. Strings appear only where a message is put
together or the outside world is met.

The module holds the vocabulary the line recognisers and the location search are written in:
blanks and trimming, cutting a text at a separator, and the first occurrence of one text in
another. What is stated beside the definitions: trimming returns a contiguous piece of its
argument (`trim_isInfix`), cutting at a separator loses nothing (`join_split`), and a found
column really holds the text looked for (`find?_eq_some`).
-/

namespace Asciidoc

/-- A text: its code points in order. -/
abbrev Text := List Char

namespace Text

/-- The code points that separate words: the ASCII controls from tab to carriage return and
from file separator to space, and the space, line and paragraph separators beyond ASCII. -/
def isBlank (c : Char) : Bool :=
  let n := c.toNat
  (0x09 ≤ n && n ≤ 0x0D) || (0x1C ≤ n && n ≤ 0x20) || n == 0x85 || n == 0xA0 || n == 0x1680 ||
    (0x2000 ≤ n && n ≤ 0x200A) || n == 0x2028 || n == 0x2029 || n == 0x202F || n == 0x205F ||
    n == 0x3000

/-- A text of blanks only. -/
def allBlank (t : Text) : Bool := t.all isBlank

/-- The text from its first code point that is not blank. -/
def trimLeft (t : Text) : Text := t.dropWhile isBlank

/-- The text up to its last code point that is not blank. -/
def trimRight : Text → Text
  | [] => []
  | c :: rest =>
    match trimRight rest with
    | [] => if isBlank c then [] else [c]
    | kept => c :: kept

/-- The text without the blanks at its ends. -/
def trim (t : Text) : Text := trimRight (trimLeft t)

/-- The number of blanks a text begins with. -/
def indent (t : Text) : Nat := (t.takeWhile isBlank).length

/-- The text without the given code points at its ends. -/
def strip (unwanted : List Char) (t : Text) : Text :=
  ((t.dropWhile unwanted.contains).reverse.dropWhile unwanted.contains).reverse

/-- The text without the carriage returns at its end. -/
def dropReturns (t : Text) : Text := (t.reverse.dropWhile (· == '\r')).reverse

/-- The pieces between the separators: always one more than there are separators. -/
def split (separator : Char) : Text → List Text
  | [] => [[]]
  | c :: rest =>
    if c = separator then [] :: split separator rest
    else
      match split separator rest with
      | [] => [[c]]
      | piece :: pieces => (c :: piece) :: pieces

/-- The pieces with the separator written between them. -/
def join (separator : Text) (pieces : List Text) : Text := separator.intercalate pieces

/-- The physical lines: pieces between line feeds. -/
def lines (t : Text) : List Text := split '\n' t

/-- The lines with line feeds between them. -/
def unlines (ls : List Text) : Text := join ['\n'] ls

/-- What stands before and after the first separator, if there is one. -/
def cut? (separator : Char) : Text → Option (Text × Text)
  | [] => none
  | c :: rest =>
    if c = separator then some ([], rest)
    else (cut? separator rest).map fun (before, after) => (c :: before, after)

/-- The first column at which a text occurs. The empty text occurs at every column, the end
included. -/
def occurrence? (needle : Text) : Text → Option Nat
  | [] => if needle = [] then some 0 else none
  | c :: rest =>
    if needle.isPrefixOf (c :: rest) then some 0 else (occurrence? needle rest).map (· + 1)

/-- A column counted from the end when negative; one before the start is the start. -/
def column (length : Nat) (start : Int) : Nat :=
  if start < 0 then ((length : Int) + start).toNat else start.toNat

/-- The first column at or after `start` at which a text occurs. A negative start counts from
the end; past the end nothing occurs, not even the empty text. -/
def find? (needle haystack : Text) (start : Int) : Option Nat :=
  let first := column haystack.length start
  if haystack.length < first then none
  else (occurrence? needle (haystack.drop first)).map (first + ·)

/-- The piece between two offsets. A negative offset counts from the end, and offsets outside
the text stand for its nearer end. -/
def slice (t : Text) (start stop : Int) : Text :=
  let first := min (column t.length start) t.length
  let last := min (column t.length stop) t.length
  (t.take last).drop first

/-- The shortest start of a text such that `accepts` holds of the rest and no line feed is
passed over; with that rest. -/
def shortest (accepts : Text → Bool) : Text → Option (Text × Text)
  | [] => if accepts [] then some ([], []) else none
  | c :: rest =>
    if accepts (c :: rest) then some ([], c :: rest)
    else if c = '\n' then none
    else (shortest accepts rest).map fun (taken, left) => (c :: taken, left)

/-! ## Laws -/

theorem allBlank_cons (c : Char) (t : Text) :
    allBlank (c :: t) = (isBlank c && allBlank t) := by
  simp [allBlank]

/-- Nothing is left of a text exactly when it is all blank. -/
theorem trimRight_eq_nil_iff (t : Text) : trimRight t = [] ↔ allBlank t = true := by
  induction t with
  | nil => simp [trimRight, allBlank]
  | cons c rest ih =>
    rw [allBlank_cons, trimRight]
    cases h : trimRight rest with
    | nil => by_cases hc : isBlank c <;> simp [hc, ih.1 h]
    | cons d ds =>
      have : allBlank rest ≠ true := fun hb => by simp [ih.2 hb] at h
      simp [this]

/-- Trimming at the right keeps a start of the text and drops blanks only. -/
theorem trimRight_append_blanks (t : Text) :
    ∃ blanks, t = trimRight t ++ blanks ∧ allBlank blanks = true := by
  induction t with
  | nil => exact ⟨[], rfl, rfl⟩
  | cons c rest ih =>
    obtain ⟨blanks, hrest, hblanks⟩ := ih
    rw [trimRight]
    cases h : trimRight rest with
    | nil =>
      rw [h] at hrest
      by_cases hc : isBlank c
      · exact ⟨c :: rest, by simp [hc], by
          rw [allBlank_cons, hc, Bool.true_and]; exact (trimRight_eq_nil_iff rest).1 h⟩
      · refine ⟨blanks, ?_, hblanks⟩
        simp only [hc, Bool.false_eq_true, if_false, List.cons_append, List.nil_append]
        rw [hrest, List.nil_append]
    | cons d ds => exact ⟨blanks, by rw [h] at hrest; simp [hrest], hblanks⟩

theorem trimRight_isPrefix (t : Text) : trimRight t <+: t := by
  obtain ⟨blanks, h, _⟩ := trimRight_append_blanks t
  exact ⟨blanks, h.symm⟩

theorem trimLeft_isSuffix (t : Text) : trimLeft t <:+ t := List.dropWhile_suffix _

/-- A trimmed text is a contiguous piece of the text. -/
theorem trim_isInfix (t : Text) : trim t <:+: t :=
  (trimRight_isPrefix _).isInfix.trans (trimLeft_isSuffix t).isInfix

theorem split_ne_nil (separator : Char) (t : Text) : split separator t ≠ [] := by
  cases t with
  | nil => simp [split]
  | cons c rest =>
    rw [split]
    by_cases h : c = separator
    · simp [h]
    · simp only [h, if_false]
      cases split separator rest <;> simp

/-- Cutting at a separator loses nothing. -/
theorem join_split (separator : Char) (t : Text) :
    join [separator] (split separator t) = t := by
  induction t with
  | nil => simp [split, join, List.intercalate]
  | cons c rest ih =>
    rw [split]
    by_cases h : c = separator
    · cases hs : split separator rest with
      | nil => exact absurd hs (split_ne_nil _ _)
      | cons piece pieces =>
        rw [hs] at ih
        simp only [h, if_true]
        simp only [join, List.intercalate, List.intersperse, List.flatten_cons,
          List.nil_append, List.cons_append] at ih ⊢
        rw [ih]
    · simp only [h, if_false]
      cases hs : split separator rest with
      | nil => exact absurd hs (split_ne_nil _ _)
      | cons piece pieces =>
        rw [hs] at ih
        cases pieces with
        | nil => simpa [join, List.intercalate] using ih
        | cons next others =>
          simp only [join, List.intercalate, List.intersperse, List.flatten_cons,
            List.cons_append] at ih ⊢
          rw [ih]

/-- No piece holds the separator it was cut at. -/
theorem not_mem_of_mem_split (separator : Char) (t : Text) :
    ∀ piece ∈ split separator t, separator ∉ piece := by
  induction t with
  | nil => simp [split]
  | cons c rest ih =>
    rw [split]
    by_cases h : c = separator
    · simp only [h, if_true, List.mem_cons, forall_eq_or_imp]
      exact ⟨by simp, ih⟩
    · simp only [h, if_false]
      cases hs : split separator rest with
      | nil => simp [Ne.symm h]
      | cons piece pieces =>
        rw [hs] at ih
        simp only [List.mem_cons, forall_eq_or_imp] at ih ⊢
        exact ⟨fun hm => hm.elim (fun he => h he.symm) ih.1, ih.2⟩

/-- A found occurrence stands where it was found. -/
theorem occurrence?_eq_some {needle haystack : Text} {n : Nat}
    (h : occurrence? needle haystack = some n) :
    n ≤ haystack.length ∧ needle <+: haystack.drop n := by
  induction haystack generalizing n with
  | nil =>
    by_cases hn : needle = []
    · simp only [occurrence?, hn, if_true, Option.some.injEq] at h
      subst h; simp [hn]
    · simp [occurrence?, hn] at h
  | cons c rest ih =>
    rw [occurrence?] at h
    by_cases hp : needle.isPrefixOf (c :: rest) = true
    · simp only [hp, if_true, Option.some.injEq] at h
      subst h
      exact ⟨Nat.zero_le _, List.isPrefixOf_iff_prefix.1 hp⟩
    · simp only [hp, Bool.false_eq_true, if_false, Option.map_eq_some_iff] at h
      obtain ⟨m, hm, rfl⟩ := h
      obtain ⟨hle, hpre⟩ := ih hm
      exact ⟨by simpa using hle, by simpa using hpre⟩

/-- A found column holds the text looked for, at or after the column the search began at. -/
theorem find?_eq_some {needle haystack : Text} {start : Int} {n : Nat}
    (h : find? needle haystack start = some n) :
    column haystack.length start ≤ n ∧ n ≤ haystack.length ∧ needle <+: haystack.drop n := by
  unfold find? at h
  simp only at h
  split at h
  · simp at h
  · rename_i hle
    obtain ⟨m, hm, rfl⟩ := Option.map_eq_some_iff.1 h
    obtain ⟨hlen, hpre⟩ := occurrence?_eq_some hm
    rw [List.length_drop] at hlen
    refine ⟨by omega, by omega, ?_⟩
    rwa [List.drop_drop] at hpre

/-- The start and the rest found by `shortest` make up the text. -/
theorem shortest_append {accepts : Text → Bool} {t taken left : Text}
    (h : shortest accepts t = some (taken, left)) : taken ++ left = t ∧ accepts left = true := by
  induction t generalizing taken with
  | nil =>
    rw [shortest] at h
    split at h
    · rename_i ha; simp at h; obtain ⟨rfl, rfl⟩ := h; exact ⟨rfl, ha⟩
    · simp at h
  | cons c rest ih =>
    rw [shortest] at h
    split at h
    · rename_i ha; simp at h; obtain ⟨rfl, rfl⟩ := h; exact ⟨rfl, ha⟩
    · split at h
      · simp at h
      · obtain ⟨⟨u, v⟩, hu, he⟩ := Option.map_eq_some_iff.1 h
        simp only [Prod.mk.injEq] at he
        obtain ⟨rfl, rfl⟩ := he
        obtain ⟨h1, h2⟩ := ih hu
        exact ⟨by simp [h1], h2⟩

end Text

end Asciidoc
